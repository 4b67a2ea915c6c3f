import CkbVote.Codec
import CkbVote.Types

/-!
# The witness that the SDK submits

`consumeProposal` does not pass the proven public values on.  It decodes them
to an object and encodes the object again inside a `ProposalWitness`.  The
codecs are those of `codec.ts`, made with the table, byte and integer codecs of
`ccc.mol` and with `ccc.Script`; the library is the parameter `Ccc`.

`witness_verbatim` says that nothing changes on the way as long as `ccc.Script`
reads both scripts in the public values.  It knows four hash types, and for a
script with another one the decoder throws.
-/

namespace CkbVote

open Octets Molecule

/-! ## The codecs -/

/-- What the SDK uses of `@ckb-ccc`. -/
structure Ccc where
  uint8 : Codec
  uint32 : Codec
  uint64 : Codec
  byte32 : Codec
  bytes : Codec
  table : Codec.Fields → Codec
  scriptEncode : Value → Option Bytes
  scriptFromBytes : Bytes → Option Value

section Codecs

variable (ccc : Ccc)

def scriptMolCodec : Codec where
  encode s := ccc.scriptEncode s
  decode bytes := ccc.scriptFromBytes bytes

def proposalCodec : Codec := ccc.table [
  ("duration", ccc.uint32),
  ("voteCellCodeHash", ccc.byte32),
  ("voteCellHashType", ccc.uint8),
  ("description", ccc.bytes),
  ("receiver", scriptMolCodec ccc),
  ("amount", ccc.uint64),
  ("minimalRequirement", ccc.uint64)]

def publicValuesCodec : Codec := ccc.table [
  ("proposal", proposalCodec ccc),
  ("startBlockHash", ccc.byte32),
  ("endBlockHash", ccc.byte32),
  ("proposalScript", scriptMolCodec ccc),
  ("passed", ccc.uint8),
  ("yesVote", ccc.uint64),
  ("noVote", ccc.uint64)]

def proposalWitnessCodec : Codec := ccc.table [
  ("proof", ccc.bytes),
  ("publicValues", publicValuesCodec ccc)]

/-- The witness bytes of `consumeProposal`. -/
def witnessBytes (proof publicValues : Bytes) : Option Bytes := do
  let publicValuesDecoded ← (publicValuesCodec ccc).decode publicValues
  (proposalWitnessCodec ccc).encode
    (.object [("proof", .hex proof), ("publicValues", publicValuesDecoded)])

end Codecs

/-- The hash types `data`, `type`, `data1` and `data2`. -/
def knownHashTypes : List UInt8 := [0, 1, 2, 4]

/-- `ccc.mol` implements molecule, and `ccc.Script` the script table for the
hash types it knows; on the others it throws. -/
structure Ccc.Documented (ccc : Ccc) : Prop where
  uint8 : ccc.uint8.IsFixed 1
  uint32 : ccc.uint32.IsFixed 4
  uint64 : ccc.uint64.IsFixed 8
  byte32 : ccc.byte32.IsFixed 32
  bytes : ccc.bytes.IsBytes
  table : Codec.IsTable ccc.table
  script_known : ∀ (codeHash : Bytes) (hashType : UInt8) (args : Bytes), codeHash.length = 32 →
    hashType ∈ knownHashTypes → (Script.newBuilder codeHash [hashType] args).length < 2 ^ 32 →
      (scriptMolCodec ccc).RoundTrips (Script.newBuilder codeHash [hashType] args)
  script_unknown : ∀ (codeHash : Bytes) (hashType : UInt8) (args : Bytes), codeHash.length = 32 →
    hashType ∉ knownHashTypes → (Script.newBuilder codeHash [hashType] args).length < 2 ^ 32 →
      (scriptMolCodec ccc).decode (Script.newBuilder codeHash [hashType] args) = none

/-! ## Slices that the verifiers accept -/

/-- The script has a hash type that `ccc.Script` knows. -/
def HashTypeKnown (script : Bytes) : Prop :=
  ∃ t ∈ knownHashTypes, ScriptReader.hashType script = .ok [t]

/-- The two scripts in public values: the receiver of the proposal and the
proposal script. -/
structure ScriptsOf (publicValues proposal receiver proposalScript : Bytes) : Prop where
  proposal_eq : PublicValuesReader.proposal publicValues = .ok proposal
  receiver_eq : ProposalReader.receiver proposal = .ok receiver
  proposalScript_eq : PublicValuesReader.proposalScript publicValues = .ok proposalScript

/-- A verified script is built from a code hash, one byte and args. -/
theorem script_of_verify {s : Bytes} (h : ScriptReader.verify false s = .ok ()) :
    ∃ codeHash hashType args, s = Script.newBuilder codeHash [hashType] args ∧
      codeHash.length = 32 ∧ s.length < 2 ^ 32 ∧ ScriptReader.hashType s = .ok [hashType] := by
  obtain ⟨hbuild, -, hsize⟩ := build_of_verifyTable h
  have hparts : parts s = [part s 0, part s 1, part s 2] := parts_of_verifyTable h
  obtain ⟨hcode, hcodeOk⟩ := Table.field_of_verify h 0 (by simp)
  obtain ⟨htype, htypeOk⟩ := Table.field_of_verify h 1 (by simp)
  obtain ⟨hargs, hargsOk⟩ := Table.field_of_verify h 2 (by simp)
  obtain ⟨hashType, hone⟩ := List.length_eq_one_iff.mp (verifyFixed_eq_ok.mp htypeOk)
  obtain ⟨hraw, -⟩ := buildBytes_of_verify (verifyFixVec_eq_ok.mp hargsOk)
  refine ⟨part s 0, hashType, (part s 2).drop 4, ?_, verifyFixed_eq_ok.mp hcodeOk, hsize, ?_⟩
  · rw [Script.newBuilder, hraw, ← hone, ← hparts, hbuild]
  · rw [← hone]
    exact htype

section Scripts

variable {ccc : Ccc} (hccc : ccc.Documented) {s : Bytes}

include hccc

/-- A script with a known hash type is decoded and encoded to itself. -/
theorem script_roundTrips (h : ScriptReader.verify false s = .ok ()) (hknown : HashTypeKnown s) :
    (scriptMolCodec ccc).RoundTrips s := by
  obtain ⟨codeHash, hashType, args, rfl, hcode, hsize, htype⟩ := script_of_verify h
  obtain ⟨t, ht, heq⟩ := hknown
  obtain rfl : hashType = t := by simpa [htype] using heq
  exact hccc.script_known codeHash hashType args hcode ht hsize

/-- A script with an unknown hash type does not decode. -/
theorem script_throws (h : ScriptReader.verify false s = .ok ()) (hunknown : ¬ HashTypeKnown s) :
    (scriptMolCodec ccc).decode s = none := by
  obtain ⟨codeHash, hashType, args, rfl, hcode, hsize, htype⟩ := script_of_verify h
  refine hccc.script_unknown codeHash hashType args hcode (fun hmem => ?_) hsize
  exact hunknown ⟨hashType, hmem, htype⟩

/-- Bytes are decoded and encoded to themselves. -/
theorem bytes_roundTrips (h : s.length = 4 + 1 * numberAt s 0) : ccc.bytes.RoundTrips s := by
  obtain ⟨hbuild, hlen⟩ := buildBytes_of_verify h
  rw [← hbuild]
  exact hccc.bytes.roundTrips hlen

/-- A proposal round trips or throws as its receiver does. -/
theorem proposal_codec (h : ProposalReader.verify false s = .ok ()) :
    ((scriptMolCodec ccc).RoundTrips (part s 4) → (proposalCodec ccc).RoundTrips s) ∧
      ((scriptMolCodec ccc).decode (part s 4) = none → (proposalCodec ccc).decode s = none) := by
  obtain ⟨-, -, -, hfields⟩ := verifyTable_eq_ok.mp h
  simp only [verifyFields, bind_unit_eq_ok, Uint32Reader.verify, Byte32Reader.verify,
    ByteReader.verify, BytesReader.verify, Uint64Reader.verify, verifyFixed_eq_ok,
    verifyFixVec_eq_ok] at hfields
  obtain ⟨hduration, hcode, htype, hdescription, -, hamount, hminimal, -⟩ := hfields
  constructor
  · intro hreceiver
    unfold proposalCodec
    refine hccc.table.roundTrips_of_verify h (by simp) (by simp) ?_
    exact .cons (hccc.uint32 _ hduration) (.cons (hccc.byte32 _ hcode) (.cons (hccc.uint8 _ htype)
      (.cons (bytes_roundTrips hccc hdescription) (.cons hreceiver
        (.cons (hccc.uint64 _ hamount) (.cons (hccc.uint64 _ hminimal) .nil))))))
  · intro hnone
    unfold proposalCodec
    exact hccc.table.decode_eq_none_of_verify h rfl 4 (by simp) hnone

/-- Public values round trip when both scripts do, and throw when one does. -/
theorem publicValues_codec (h : PublicValuesReader.verify false s = .ok ()) :
    ((proposalCodec ccc).RoundTrips (part s 0) → (scriptMolCodec ccc).RoundTrips (part s 3) →
        (publicValuesCodec ccc).RoundTrips s) ∧
      ((proposalCodec ccc).decode (part s 0) = none ∨
        (scriptMolCodec ccc).decode (part s 3) = none →
        (publicValuesCodec ccc).decode s = none) := by
  obtain ⟨-, -, -, hfields⟩ := verifyTable_eq_ok.mp h
  simp only [verifyFields, bind_unit_eq_ok, Byte32Reader.verify, ByteReader.verify,
    Uint64Reader.verify, verifyFixed_eq_ok] at hfields
  obtain ⟨-, hstart, hend, -, hpassed, hyes, hno, -⟩ := hfields
  constructor
  · intro hproposal hscript
    unfold publicValuesCodec
    refine hccc.table.roundTrips_of_verify h (by simp) (by simp) ?_
    exact .cons hproposal (.cons (hccc.byte32 _ hstart) (.cons (hccc.byte32 _ hend) (.cons hscript
      (.cons (hccc.uint8 _ hpassed) (.cons (hccc.uint64 _ hyes)
        (.cons (hccc.uint64 _ hno) .nil))))))
  · intro hnone
    unfold publicValuesCodec
    rcases hnone with hproposal | hscript
    · exact hccc.table.decode_eq_none_of_verify h rfl 0 (by simp) hproposal
    · exact hccc.table.decode_eq_none_of_verify h rfl 3 (by simp) hscript

end Scripts

/-! ## What is submitted -/

/-- The witness is built, parses as `ProposalWitness`, and holds the public
values and the proof byte for byte. -/
def Verbatim (ccc : Ccc) (proof publicValues : Bytes) : Prop :=
  ∃ witness, witnessBytes ccc proof publicValues = some witness ∧
    fromSlice ProposalWitnessReader.verify witness = .ok witness ∧
    ProposalWitnessReader.publicValues witness = .ok publicValues ∧
    (ProposalWitnessReader.proof witness >>= rawData) = .ok proof

section Witness

variable {ccc : Ccc} {proof publicValues : Bytes}

/-- A witness is 16 bytes longer than its contents, and its size is a word. -/
theorem length_of_verbatim (h : Verbatim ccc proof publicValues) :
    16 + proof.length + publicValues.length < 2 ^ 32 := by
  obtain ⟨witness, -, hwitness, hvalues, hproof⟩ := h
  obtain ⟨hverify, -⟩ := fromSlice_eq_ok.mp hwitness
  obtain ⟨hbuild, -, hsize⟩ := build_of_verifyTable hverify
  have hparts : parts witness = [part witness 0, part witness 1] := parts_of_verifyTable hverify
  obtain ⟨hfirst, hfirstOk⟩ := Table.field_of_verify hverify 0 (by simp)
  obtain ⟨hsecond, -⟩ := Table.field_of_verify hverify 1 (by simp)
  obtain rfl : part witness 1 = publicValues := Except.ok.inj (hsecond.symm.trans hvalues)
  obtain ⟨field, hfield, hraw⟩ := bind_eq_ok.mp hproof
  obtain rfl : part witness 0 = field := Except.ok.inj (hfirst.symm.trans hfield)
  have hproofLen := verifyFixVec_eq_ok.mp hfirstOk
  rw [rawData_ok (by omega), Except.ok.injEq] at hraw
  have hrawLen := congrArg List.length hraw
  rw [length_slice (Nat.le_refl _)] at hrawLen
  have hwitnessLen := length_build (parts witness)
  rw [hbuild, hparts] at hwitnessLen
  simp at hwitnessLen
  omega

/-- **The proven bytes are submitted verbatim** when both scripts in them have
a hash type that `ccc.Script` knows and the witness fits into a header word; for
another hash type nothing is built. -/
theorem witness_verbatim (hccc : ccc.Documented)
    (hvalues : fromSlice PublicValuesReader.verify publicValues = .ok publicValues) :
    ∃ proposal receiver proposalScript,
      ScriptsOf publicValues proposal receiver proposalScript ∧
      (HashTypeKnown receiver ∧ HashTypeKnown proposalScript →
        16 + proof.length + publicValues.length < 2 ^ 32 → Verbatim ccc proof publicValues) ∧
      (¬ (HashTypeKnown receiver ∧ HashTypeKnown proposalScript) →
        witnessBytes ccc proof publicValues = none) := by
  obtain ⟨hverify, -⟩ := fromSlice_eq_ok.mp hvalues
  obtain ⟨hproposal, hproposalOk⟩ := Table.field_of_verify hverify 0 (by simp)
  obtain ⟨hscript, hscriptOk⟩ := Table.field_of_verify hverify 3 (by simp)
  obtain ⟨hreceiver, hreceiverOk⟩ := Table.field_of_verify hproposalOk 4 (by simp)
  obtain ⟨hproposalRound, hproposalThrow⟩ := proposal_codec hccc hproposalOk
  obtain ⟨hround, hthrow⟩ := publicValues_codec hccc hverify
  refine ⟨_, _, _, ⟨hproposal, hreceiver, hscript⟩, ?_, ?_⟩
  · intro hknown hsize
    obtain ⟨v, hdecode, hencode⟩ := hround
      (hproposalRound (script_roundTrips hccc hreceiverOk hknown.1))
      (script_roundTrips hccc hscriptOk hknown.2)
    have hproofSize : proof.length < 2 ^ 32 := by omega
    have hlen : (build [buildBytes proof, publicValues]).length =
        16 + proof.length + publicValues.length := by
      rw [length_build]
      simp [buildBytes]
      omega
    have hfields :
        Codec.encodeFields [("proof", ccc.bytes), ("publicValues", publicValuesCodec ccc)]
        [("proof", .hex proof), ("publicValues", v)] = some [buildBytes proof, publicValues] := by
      have hsecond : List.lookup "publicValues" [("proof", .hex proof), ("publicValues", v)] =
          some v := rfl
      simp [Codec.encodeFields, hsecond, hccc.bytes.encode_eq proof hproofSize, hencode]
    refine ⟨build [buildBytes proof, publicValues], ?_, fromSlice_eq_ok.mpr ⟨?_, rfl⟩, ?_, ?_⟩
    · rw [witnessBytes, hdecode]
      exact hccc.table.encode_eq _ _ _ hfields (by omega)
    · have hproofOk : BytesReader.verify false (buildBytes proof) = .ok () :=
        BytesReader.verify_build false hproofSize
      exact verifyTable_build (by omega) (by simp) (.cons hproofOk (.cons hverify .nil))
    · exact field_build (by omega) (by simp)
    · have hfield : ProposalWitnessReader.proof (build [buildBytes proof, publicValues]) =
          .ok (buildBytes proof) := field_build (by omega) (by simp)
      rw [hfield]
      exact rawData_buildBytes proof
  · intro hunknown
    have hnone : (publicValuesCodec ccc).decode publicValues = none := by
      apply hthrow
      rcases not_and_or.mp hunknown with hfirst | hsecond
      · exact Or.inl (hproposalThrow (script_throws hccc hreceiverOk hfirst))
      · exact Or.inr (script_throws hccc hscriptOk hsecond)
    rw [witnessBytes, hnone]
    rfl

end Witness

/-! ## A library that behaves as documented -/

def hashTypeNames : List (String × UInt8) := [("data", 0), ("type", 1), ("data1", 2), ("data2", 4)]

def hashTypeCodec : Codec where
  encode
    | .str name => (hashTypeNames.lookup name).map fun t => [t]
    | _ => none
  decode
    | [t] => (hashTypeNames.find? fun entry => entry.2 = t).map fun entry => .str entry.1
    | _ => none

def scriptCodec : Codec := Codec.table [
  ("codeHash", Codec.fixedHex 32),
  ("hashType", hashTypeCodec),
  ("args", Codec.bytes)]

def moleculeCcc : Ccc where
  uint8 := Codec.number 1
  uint32 := Codec.number 4
  uint64 := Codec.number 8
  byte32 := Codec.fixedHex 32
  bytes := Codec.bytes
  table := Codec.table
  scriptEncode := scriptCodec.encode
  scriptFromBytes := scriptCodec.decode

/-- A known hash type is decoded and encoded to itself. -/
theorem hashTypeCodec_known {t : UInt8} (h : t ∈ knownHashTypes) :
    hashTypeCodec.RoundTrips [t] := by
  simp only [knownHashTypes, List.mem_cons, List.not_mem_nil, or_false] at h
  rcases h with rfl | rfl | rfl | rfl
  · exact ⟨.str "data", rfl, rfl⟩
  · exact ⟨.str "type", rfl, rfl⟩
  · exact ⟨.str "data1", rfl, rfl⟩
  · exact ⟨.str "data2", rfl, rfl⟩

/-- An unknown hash type does not decode. -/
theorem hashTypeCodec_unknown {t : UInt8} (h : t ∉ knownHashTypes) :
    hashTypeCodec.decode [t] = none := by
  simp only [knownHashTypes, List.mem_cons, List.not_mem_nil, or_false, not_or] at h
  obtain ⟨h0, h1, h2, h4⟩ := h
  simp [hashTypeCodec, hashTypeNames, List.find?, Ne.symm h0, Ne.symm h1, Ne.symm h2, Ne.symm h4]

theorem scriptMolCodec_moleculeCcc : scriptMolCodec moleculeCcc = scriptCodec := rfl

/-- The molecule codecs behave as documented. -/
theorem moleculeCcc_documented : moleculeCcc.Documented where
  uint8 := Codec.isFixed_number 1
  uint32 := Codec.isFixed_number 4
  uint64 := Codec.isFixed_number 8
  byte32 := Codec.isFixed_fixedHex 32
  bytes := Codec.isBytes_bytes
  table := Codec.isTable_table
  script_known codeHash hashType args hcode hknown hsize := by
    have hargs : args.length < 2 ^ 32 := by
      rw [Script.newBuilder, length_build] at hsize
      simp [buildBytes] at hsize
      omega
    rw [scriptMolCodec_moleculeCcc]
    refine Codec.isTable_table.roundTrips (by simp) (by simp) hsize ?_
    exact .cons (Codec.isFixed_fixedHex 32 _ hcode) (.cons (hashTypeCodec_known hknown)
      (.cons (Codec.isBytes_bytes.roundTrips hargs) .nil))
  script_unknown codeHash hashType args _ hunknown hsize := by
    rw [scriptMolCodec_moleculeCcc]
    refine Codec.isTable_table.decode_eq_none (by simp) rfl hsize
      ⟨(("hashType", hashTypeCodec), [hashType]), ?_, hashTypeCodec_unknown hunknown⟩
    simp

namespace Sample

/-- Public values of a proposal whose receiver has the given hash type. -/
def publicValuesFor (receiverHashType : UInt8) : Bytes :=
  PublicValues.newBuilder
    (Proposal.newBuilder 1 (List.replicate 32 3) [1] []
      (Script.newBuilder (List.replicate 32 4) [receiverHashType] []) 0 0)
    (List.replicate 32 5) (List.replicate 32 6)
    (Script.newBuilder (List.replicate 32 1) [1] (List.replicate 52 2)) [1] (leBytes 8 100)
    (leBytes 8 0)

def shortProof : Bytes := [1, 2, 3]

theorem publicValuesFor_reads :
    fromSlice PublicValuesReader.verify (publicValuesFor 3) = .ok (publicValuesFor 3) ∧
      fromSlice PublicValuesReader.verify (publicValuesFor 1) = .ok (publicValuesFor 1) ∧
      witnessBytes moleculeCcc [] (publicValuesFor 3) = none := by
  decide +kernel

end Sample

open Sample in
/-- Public values whose receiver has hash type 3 parse, and no witness is built
from them; a proof of `2 ^ 32` bytes cannot be submitted with any. -/
theorem publicValuesFor_not_submitted : moleculeCcc.Documented ∧
    fromSlice PublicValuesReader.verify (publicValuesFor 3) = .ok (publicValuesFor 3) ∧
    fromSlice PublicValuesReader.verify (publicValuesFor 1) = .ok (publicValuesFor 1) ∧
    ¬ Verbatim moleculeCcc [] (publicValuesFor 3) ∧
    ∀ proof : Bytes, 2 ^ 32 ≤ proof.length → ¬ Verbatim moleculeCcc proof (publicValuesFor 1) := by
  obtain ⟨hunknown, hknown, hnone⟩ := publicValuesFor_reads
  refine ⟨moleculeCcc_documented, hunknown, hknown, fun h => ?_, fun proof hlong h => ?_⟩
  · obtain ⟨witness, hwitness, -⟩ := h
    exact absurd (hnone.symm.trans hwitness) (Option.some_ne_none witness).symm
  · have hlen := length_of_verbatim h
    omega

open Sample in
theorem witness_verbatim_publicValuesFor :
    ∃ proposal receiver proposalScript,
      ScriptsOf (publicValuesFor 1) proposal receiver proposalScript ∧
      (HashTypeKnown receiver ∧ HashTypeKnown proposalScript →
        16 + shortProof.length + (publicValuesFor 1).length < 2 ^ 32 →
          Verbatim moleculeCcc shortProof (publicValuesFor 1)) ∧
      (¬ (HashTypeKnown receiver ∧ HashTypeKnown proposalScript) →
        witnessBytes moleculeCcc shortProof (publicValuesFor 1) = none) := by
  obtain ⟨-, hknown, -⟩ := publicValuesFor_reads
  exact witness_verbatim moleculeCcc_documented hknown

end CkbVote
