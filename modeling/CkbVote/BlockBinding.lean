import CkbVote.Integrity
import CkbVote.Tally

/-!
# The end block hash binds what the tally reads

Whoever feeds the guest program chooses the block bytes and the witness roots.
Two such inputs with one number of blocks that both pass the integrity check
and end in one header hash agree in every header and in every raw transaction,
unless the strings hashed for them show a coincidence of the hash or some raw
transaction has the length of two digests.

The argument goes back along the header chain (`links_inj`), and from each
header through its `transactions_root` to the raw transactions
(`rawTransactions_binding`).  `countVote_raws` adds that a count reads nothing
else.
-/

namespace CkbVote

open Octets Molecule

/-! ## Chains of hashes -/

/-- Two chains in which every element names the hash of the one before agree
backwards from elements with one hash, when no two of their elements collide. -/
theorem links_back {α β : Type} (hash parent : α → β) (l l' : List α) {n e : Nat}
    (hn : n < l.length) (he : e < l'.length)
    (hl : ∀ (i : Nat) (hi : i + 1 < l.length), hash l[i] = parent l[i + 1])
    (hl' : ∀ (i : Nat) (hi : i + 1 < l'.length), hash l'[i] = parent l'[i + 1])
    (hcol : ∀ x ∈ l, ∀ y ∈ l', hash x = hash y → x = y)
    (hlast : hash l[n] = hash l'[e]) (j : Nat) (hjn : j ≤ n) (hje : j ≤ e) :
    l[n - j] = l'[e - j] := by
  induction j with
  | zero => exact hcol _ (List.getElem_mem _) _ (List.getElem_mem _) hlast
  | succ j ih =>
      have hnext := ih (by omega) (by omega)
      have hstep := hl (n - (j + 1)) (by omega)
      have hstep' := hl' (e - (j + 1)) (by omega)
      have hidx : n - (j + 1) + 1 = n - j := by omega
      have hidx' : e - (j + 1) + 1 = e - j := by omega
      simp only [hidx] at hstep
      simp only [hidx'] at hstep'
      exact hcol _ (List.getElem_mem _) _ (List.getElem_mem _) (by rw [hstep, hstep', hnext])

/-- Two such chains of one length with one last hash are equal. -/
theorem links_inj {α β : Type} (hash parent : α → β) {n : Nat} {l l' : List α}
    (hlen : l.length = n + 1) (hlen' : l'.length = n + 1)
    (hl : ∀ (i : Nat) (hi : i + 1 < l.length), hash l[i] = parent l[i + 1])
    (hl' : ∀ (i : Nat) (hi : i + 1 < l'.length), hash l'[i] = parent l'[i + 1])
    (hcol : ∀ x ∈ l, ∀ y ∈ l', hash x = hash y → x = y)
    (hlast : hash l[n] = hash l'[n]) : l = l' := by
  apply List.ext_getElem (by omega)
  intro i hi hi'
  have hback := links_back hash parent l l' (by omega) (by omega) hl hl' hcol hlast (n - i)
    (by omega) (by omega)
  have hidx : n - (n - i) = i := by omega
  simpa only [hidx] using hback

section Code

variable [Blake2b]

/-! ## Hashed strings -/

/-- Two different strings with one digest, or one with the all-zero digest. -/
def Coincidence (strings : List Bytes) : Prop :=
  (∃ x ∈ strings, ∃ y ∈ strings, x ≠ y ∧ blake2b256 x = blake2b256 y) ∨
    ∃ x ∈ strings, blake2b256 x = FixedBytes.zero 32

/-- Without a coincidence, digests tell the strings of both lists apart. -/
theorem separated_of_not_coincidence {hashed hashed' : List Bytes}
    (h : ¬ Coincidence (hashed ++ hashed')) :
    (∀ x ∈ hashed, ∀ y ∈ hashed', blake2b256 x = blake2b256 y → x = y) ∧
      ∀ x ∈ hashed ++ hashed', blake2b256 x ≠ FixedBytes.zero 32 := by
  refine ⟨?_, fun x hx heq => h (Or.inr ⟨x, hx, heq⟩)⟩
  intro x hx y hy heq
  by_contra hne
  exact h (Or.inl ⟨x, by simp [hx], y, by simp [hy], hne, heq⟩)

/-- The strings hashed for one block: its header, its raw transactions, the
pairs of digests merged over them, and the raw root next to the witness root. -/
def blockStrings (block witnessRoot : Bytes) : Run (List Bytes) := do
  let header ← BlockReader.header block
  let raws ← rawTransactions block
  let rawRoot ← merkleRoot (raws.map blake2b256)
  .ok (header :: (Cbmt.strings blake2b256 mergeInput raws ++ [rawRoot.val ++ witnessRoot]))

/-- The strings hashed by the integrity check and by the hash of the last
header. -/
def hashedStrings (blocks witnessRoot : Bytes) : Run (List Bytes) := do
  let strings ← readRange (fun i => do
    let block ← blockAt blocks i
    match ← FixVec.get 32 witnessRoot i with
    | none => .error (.expect "witness_root index out of bounds")
    | some wr => blockStrings block wr) (← itemCount blocks) 0
  .ok strings.flatten

/-- The header bytes of every block. -/
def blockHeaders (blocks : Bytes) : Run (List Bytes) := do
  readRange (fun i => do
    let block ← blockAt blocks i
    BlockReader.header block) (← itemCount blocks) 0

/-- The raw transactions of every block. -/
def blockRaws (blocks : Bytes) : Run (List (List Bytes)) := do
  readRange (fun i => do
    let block ← blockAt blocks i
    rawTransactions block) (← itemCount blocks) 0

/-- `compute_header_hash` of the last block. -/
def endHash (blocks : Bytes) : Run Hash32 := do
  let count ← itemCount blocks
  let last ← blockAt blocks (count - 1)
  .ok (computeHeaderHash (← BlockReader.header last))

variable {compatible : Bool} {blocks witnessRoot : Bytes}

omit [Blake2b] in
/-- The headers of a verified vector are read. -/
theorem blockHeaders_eq (hverify : verifyBlockVec compatible blocks = .ok ()) :
    blockHeaders blocks = .ok ((blockSlices blocks).map headerSlice) := by
  rw [blockHeaders, itemCount_blocks hverify, ok_bind, readRange_eq_ok]
  refine ⟨List.length_map _, fun i hi => ?_⟩
  have hi' : i < (blockSlices blocks).length := by simpa using hi
  rw [Nat.zero_add, blockAt_eq hverify hi', ok_bind,
    (blockLayout_of_mem hverify (List.getElem_mem hi')).header_eq, List.getElem_map]

/-- The end hash is that of the last header. -/
theorem endHash_eq (hverify : verifyBlockVec compatible blocks = .ok ()) {n : Nat}
    (hn : (blockSlices blocks).length = n + 1) :
    endHash blocks = .ok (blake2b256 (headerSlice (blockSlices blocks)[n])) := by
  have hlt : n < (blockSlices blocks).length := by omega
  have hcount := itemCount_blocks hverify
  rw [hn] at hcount
  rw [endHash, hcount, ok_bind, Nat.add_sub_cancel, blockAt_eq hverify hlt, ok_bind,
    (blockLayout_of_mem hverify (List.getElem_mem hlt)).header_eq]
  rfl

/-- An accepted block with its raw transactions, their root and its witness root. -/
structure BlockRoots (block : Bytes) (raws : List Bytes) (rawRoot witness : Hash32) : Prop where
  raws_eq : rawTransactions block = .ok raws
  rawRoot_eq : merkleRoot (raws.map blake2b256) = .ok rawRoot
  root_eq : (merge rawRoot witness).val = rootField (headerSlice block)

/-- A block with its raw transactions, whose strings are among the hashed ones. -/
def RootedIn (hashed : List Bytes) (block : Bytes) (raws : List Bytes) : Prop :=
  ∃ rawRoot witness, BlockRoots block raws rawRoot witness ∧ ∀ m ∈ headerSlice block ::
    (Cbmt.strings blake2b256 mergeInput raws ++ [mergeInput rawRoot witness]), m ∈ hashed

/-- The header of a rooted block was hashed. -/
theorem RootedIn.header_mem {hashed raws : List Bytes} {block : Bytes}
    (h : RootedIn hashed block raws) : headerSlice block ∈ hashed := by
  obtain ⟨_, _, -, hmem⟩ := h
  exact hmem _ List.mem_cons_self

/-- The raw transactions of a rooted block are read. -/
theorem RootedIn.raws_eq {hashed raws : List Bytes} {block : Bytes}
    (h : RootedIn hashed block raws) : rawTransactions block = .ok raws := by
  obtain ⟨_, _, hroots, -⟩ := h
  exact hroots.raws_eq

/-- Every block that passes the integrity check has its roots. -/
theorem blockRoots_of_integrity (hverify : verifyBlockVec compatible blocks = .ok ())
    (hintegrity : verifyBlockIntegrity blocks witnessRoot = .ok (.ok ())) {i : Nat}
    (hi : i < (blockSlices blocks).length) :
    ∃ raws rawRoot witness, BlockRoots (blockSlices blocks)[i] raws rawRoot witness ∧
      FixVec.get 32 witnessRoot i = .ok (some witness.val) := by
  obtain ⟨-, -, hroots⟩ := (verifyBlockIntegrity_ok hverify).mp hintegrity
  obtain ⟨wr, root, hwr, hcalc, hroot⟩ := hroots i hi
  obtain ⟨raws, rawRoot, witness, hraws, hrawRoot, rfl, rfl⟩ := calcTransactionsRoot_eq_ok.mp hcalc
  exact ⟨raws, rawRoot, witness, ⟨hraws, hrawRoot, hroot⟩, hwr⟩

/-- What is hashed for a block: its header, the strings of its tree and the merge
of the two roots. -/
theorem blockStrings_eq {block : Bytes} {raws : List Bytes} {rawRoot witness : Hash32}
    (hlayout : BlockLayout block) (h : BlockRoots block raws rawRoot witness) :
    blockStrings block witness.val = .ok (headerSlice block ::
      (Cbmt.strings blake2b256 mergeInput raws ++ [mergeInput rawRoot witness])) := by
  rw [blockStrings, hlayout.header_eq, ok_bind, h.raws_eq, ok_bind, h.rawRoot_eq]
  rfl

/-- The reads behind the two lists end on blocks that passed the integrity
check, and the hashed strings contain those of each block. -/
theorem blockRaws_of_integrity (hverify : verifyBlockVec compatible blocks = .ok ())
    (hintegrity : verifyBlockIntegrity blocks witnessRoot = .ok (.ok ())) :
    ∃ raws hashed, blockRaws blocks = .ok raws ∧ hashedStrings blocks witnessRoot = .ok hashed ∧
      raws.length = (blockSlices blocks).length ∧
      ∀ (i : Nat) (hi : i < (blockSlices blocks).length) (hi' : i < raws.length),
        RootedIn hashed (blockSlices blocks)[i] raws[i] := by
  have hcount := itemCount_blocks hverify
  have hblock := fun (i : Nat) (hi : i < (blockSlices blocks).length) =>
    blockRoots_of_integrity hverify hintegrity hi
  obtain ⟨raws, hraws⟩ : ∃ raws, blockRaws blocks = .ok raws := by
    rw [blockRaws, hcount, ok_bind]
    refine exists_readRange fun i hi => ?_
    obtain ⟨raws, _, _, hroots, -⟩ := hblock i hi
    exact ⟨raws, by rw [Nat.zero_add, blockAt_eq hverify hi, ok_bind, hroots.raws_eq]⟩
  obtain ⟨hashed, hhashed⟩ : ∃ hashed, readRange (fun i => do
      let block ← blockAt blocks i
      match ← FixVec.get 32 witnessRoot i with
      | none => .error (.expect "witness_root index out of bounds")
      | some wr => blockStrings block wr) (blockSlices blocks).length 0 = .ok hashed := by
    refine exists_readRange fun i hi => ?_
    obtain ⟨raws, _, _, hroots, hwr⟩ := hblock i hi
    rw [Nat.zero_add, blockAt_eq hverify hi, ok_bind, hwr]
    exact ⟨_, blockStrings_eq (blockLayout_of_mem hverify (List.getElem_mem hi)) hroots⟩
  refine ⟨raws, hashed.flatten, hraws, ?_, ?_, ?_⟩
  · rw [hashedStrings, hcount, ok_bind, hhashed]
    rfl
  · rw [blockRaws, hcount, ok_bind, readRange_eq_ok] at hraws
    exact hraws.1
  · intro i hi hi'
    rw [blockRaws, hcount, ok_bind, readRange_eq_ok] at hraws
    obtain ⟨hlen, hitems⟩ := readRange_eq_ok.mp hhashed
    have hread := hraws.2 i hi'
    have hstrings := hitems i (by omega)
    obtain ⟨raws', rawRoot, witness, hroots, hwr⟩ := hblock i hi
    rw [Nat.zero_add, blockAt_eq hverify hi, ok_bind, hroots.raws_eq] at hread
    cases hread
    refine ⟨rawRoot, witness, hroots, fun m hm => ?_⟩
    rw [Nat.zero_add, blockAt_eq hverify hi, ok_bind, hwr, ok_bind] at hstrings
    simp only [blockStrings_eq (blockLayout_of_mem hverify (List.getElem_mem hi)) hroots,
      Except.ok.injEq] at hstrings
    exact List.mem_flatten.mpr ⟨_, List.getElem_mem _, hstrings ▸ hm⟩

/-- A header of blocks whose strings are hashed is hashed. -/
theorem mem_hashed_of_header {raws : List (List Bytes)} {hashed : List Bytes}
    (hlen : raws.length = (blockSlices blocks).length)
    (hblocks : ∀ (i : Nat) (hi : i < (blockSlices blocks).length) (hi' : i < raws.length),
      RootedIn hashed (blockSlices blocks)[i] raws[i]) :
    ∀ header ∈ (blockSlices blocks).map headerSlice, header ∈ hashed := by
  intro header hheader
  obtain ⟨block, hblock, rfl⟩ := List.mem_map.mp hheader
  obtain ⟨i, hi, rfl⟩ := List.mem_iff_getElem.mp hblock
  exact (hblocks i hi (by omega)).header_mem

/-! ## Binding -/

omit [Blake2b] in
/-- The strings of two merges differ unless both sides agree. -/
theorem mergeInput_inj (a b c d : Hash32) (h : mergeInput a b = mergeInput c d) :
    a = c ∧ b = d := by
  obtain ⟨hl, hr⟩ := List.append_inj h (by simp)
  exact ⟨FixedBytes.ext hl, FixedBytes.ext hr⟩

omit [Blake2b] in
theorem length_mergeInput (a b : Hash32) : (mergeInput a b).length = 64 := by
  simp [mergeInput]

/-- Raw transactions with one root are equal: no coincidence among their
strings, no raw transaction of 64 bytes. -/
theorem rawTransactions_binding {raws raws' : List Bytes} {root : Hash32}
    (h : merkleRoot (raws.map blake2b256) = .ok root)
    (h' : merkleRoot (raws'.map blake2b256) = .ok root)
    (hcol : ∀ x ∈ Cbmt.strings blake2b256 mergeInput raws,
      ∀ y ∈ Cbmt.strings blake2b256 mergeInput raws', blake2b256 x = blake2b256 y → x = y)
    (hzero : ∀ x ∈ Cbmt.strings blake2b256 mergeInput raws, blake2b256 x ≠ FixedBytes.zero 32)
    (hzero' : ∀ x ∈ Cbmt.strings blake2b256 mergeInput raws', blake2b256 x ≠ FixedBytes.zero 32)
    (h64 : ∀ raw ∈ raws, raw.length ≠ 64) (h64' : ∀ raw ∈ raws', raw.length ≠ 64) :
    raws = raws' := by
  have hempty : ∀ {l : List Bytes}, l = [] → merkleRoot (l.map blake2b256) = .ok root →
      root = FixedBytes.zero 32 := by
    intro _ hnil h
    subst hnil
    exact (Except.ok.inj h).symm
  have hrootOf : ∀ {l : List Bytes}, l ≠ [] → merkleRoot (l.map blake2b256) = .ok root →
      Cbmt.rootOf (fun a b => blake2b256 (mergeInput a b)) (l.map blake2b256) = .ok root := by
    intro l hne h
    rw [merkleRoot, if_neg (by simpa using hne)] at h
    exact h
  by_cases hne : raws = []
  · by_cases hne' : raws' = []
    · rw [hne, hne']
    · obtain ⟨m, hm, hroot⟩ := Cbmt.exists_string_of_rootOf _ _ hne' (hrootOf hne' h')
      exact absurd (hroot.trans (hempty hne h)) (hzero' m hm)
  · by_cases hne' : raws' = []
    · obtain ⟨m, hm, hroot⟩ := Cbmt.exists_string_of_rootOf _ _ hne (hrootOf hne h)
      exact absurd (hroot.trans (hempty hne' h')) (hzero m hm)
    · have hlength : ∀ {l : List Bytes}, (∀ raw ∈ l, raw.length ≠ 64) →
          ∀ x ∈ l, ∀ a b, x ≠ mergeInput a b := by
        intro l hl x hx a b hxab
        subst hxab
        exact hl _ hx (length_mergeInput a b)
      exact Cbmt.leaves_binding mergeInput_inj hne hne' hcol (hlength h64) (hlength h64')
        (hrootOf hne h) (hrootOf hne' h')

/-- Two blocks with one header have the same raw transactions. -/
theorem RootedIn.raws_unique {block block' : Bytes} {raws raws' hashed hashed' : List Bytes}
    (h : RootedIn hashed block raws) (h' : RootedIn hashed' block' raws')
    (hheader : headerSlice block = headerSlice block')
    (hcol : ∀ x ∈ hashed, ∀ y ∈ hashed', blake2b256 x = blake2b256 y → x = y)
    (hzero : ∀ x ∈ hashed ++ hashed', blake2b256 x ≠ FixedBytes.zero 32)
    (h64 : ∀ raw ∈ raws, raw.length ≠ 64) (h64' : ∀ raw ∈ raws', raw.length ≠ 64) :
    raws = raws' := by
  obtain ⟨rawRoot, witness, hroots, hmem⟩ := h
  obtain ⟨rawRoot', witness', hroots', hmem'⟩ := h'
  have hmerge : merge rawRoot witness = merge rawRoot' witness' :=
    FixedBytes.ext (by rw [hroots.root_eq, hroots'.root_eq, hheader])
  have hpair := hcol _ (hmem _ (by simp)) _ (hmem' _ (by simp)) hmerge
  obtain ⟨hrawRoot, -⟩ := mergeInput_inj _ _ _ _ hpair
  have hleft : ∀ m ∈ Cbmt.strings blake2b256 mergeInput raws, m ∈ hashed :=
    fun m hm => hmem m (by simp [hm])
  have hright : ∀ m ∈ Cbmt.strings blake2b256 mergeInput raws', m ∈ hashed' :=
    fun m hm => hmem' m (by simp [hm])
  exact rawTransactions_binding hroots.rawRoot_eq (hrawRoot ▸ hroots'.rawRoot_eq)
    (fun x hx y hy => hcol x (hleft x hx) y (hright y hy))
    (fun x hx => hzero x (by simp [hleft x hx])) (fun x hx => hzero x (by simp [hright x hx]))
    h64 h64'

/-- The headers of linked blocks, as a chain of hashes. -/
theorem Linked.headers {blocks : List Bytes} (h : Linked blocks) (i : Nat)
    (hi : i + 1 < (blocks.map headerSlice).length) :
    (blake2b256 (blocks.map headerSlice)[i]).val =
      parentField (blocks.map headerSlice)[i + 1] := by
  have hstep := h i (by simpa using hi)
  rw [headerHash] at hstep
  rw [List.getElem_map, List.getElem_map, hstep]

/-! ## What a count reads -/

/-- `find_proposal` over the raw transactions of the blocks. -/
def findProposalIn (proposalScript : Bytes) : List (List Bytes) → Run (Option Bytes)
  | [] => .ok none
  | first :: _ => do
      let found ← findList (findInTransaction proposalScript) first
      .ok (found.getD none)

/-- The loop of `count_vote` over the raw transactions of the blocks. -/
def tallyRaws (poll : Poll) (raws : List (List Bytes)) : Run Maps :=
  raws.foldlM (fun maps block =>
    block.foldlM (fun maps raw => processTransaction poll raw maps) maps) Maps.empty

/-- `count_vote` over the raw transactions of the blocks. -/
def countRaws (raws : List (List Bytes)) (proposalScript : Bytes) : Run VoteResult := do
  match ← findProposalIn proposalScript raws with
  | none =>
      let _ ← ScriptReader.codeHash proposalScript
      .ok ⟨Proposal.default, 0, 0, false⟩
  | some proposal =>
      let poll ← readPoll proposal proposalScript
      if raws.length ≠ poll.duration + 1 then .ok ⟨proposal, 0, 0, false⟩
      else
        let maps ← tallyRaws poll raws
        .ok (verdict proposal poll.minimalReq maps)

omit [Blake2b] in
/-- The raw transactions of a block, one by one. -/
theorem rawTransactions_eq_ok {block : Bytes} {raws : List Bytes} :
    rawTransactions block = .ok raws ↔ ∃ txs, BlockReader.transactions block = .ok txs ∧
      itemCount txs = .ok raws.length ∧
      ∀ (k : Nat) (hk : k < raws.length), rawTransaction txs (0 + k) = .ok raws[k] := by
  unfold rawTransactions
  simp only [bind_eq_ok, readRange_eq_ok]
  constructor
  · intro h
    obtain ⟨txs, htxs, count, hcount, rfl, hread⟩ := h
    exact ⟨txs, htxs, hcount, hread⟩
  · intro h
    obtain ⟨txs, htxs, hcount, hread⟩ := h
    exact ⟨txs, htxs, _, hcount, rfl, hread⟩

/-- A block is processed by its raw transactions only. -/
theorem processBlock_raws {poll : Poll} {block : Bytes} {raws : List Bytes}
    (h : rawTransactions block = .ok raws) (maps : Maps) :
    processBlock poll block maps =
      raws.foldlM (fun maps raw => processTransaction poll raw maps) maps := by
  obtain ⟨txs, htxs, hcount, hread⟩ := rawTransactions_eq_ok.mp h
  rw [processBlock, htxs, ok_bind, hcount, ok_bind]
  exact forRange_eq_foldlM raws 0 (fun k hk maps => by rw [hread k hk, ok_bind]) maps

variable {raws : List (List Bytes)}

omit [Blake2b] in
/-- The raw transactions of a verified vector are those of its blocks. -/
theorem blockRaws_eq_ok (hverify : verifyBlockVec compatible blocks = .ok ()) :
    blockRaws blocks = .ok raws ↔ raws.length = (blockSlices blocks).length ∧
      ∀ (i : Nat) (hi : i < raws.length) (hi' : i < (blockSlices blocks).length),
        rawTransactions (blockSlices blocks)[i] = .ok raws[i] := by
  rw [blockRaws, itemCount_blocks hverify, ok_bind, readRange_eq_ok]
  refine and_congr_right fun hlen => forall_congr' fun i => forall_congr' fun hi => ?_
  have hi' : i < (blockSlices blocks).length := by omega
  rw [Nat.zero_add, blockAt_eq hverify hi', ok_bind]
  exact ⟨fun h _ => h, fun h => h hi'⟩

omit [Blake2b] in
/-- The proposal is found in the raw transactions only. -/
theorem findProposal_raws (hverify : verifyBlockVec compatible blocks = .ok ())
    (hraws : blockRaws blocks = .ok raws) (proposalScript : Bytes) :
    findProposal blocks proposalScript = findProposalIn proposalScript raws := by
  obtain ⟨hlen, hitems⟩ := (blockRaws_eq_ok hverify).mp hraws
  have hget : DynVec.get blocks 0 = .ok (blockSlices blocks)[0]? :=
    DynVec.get_eq (verifyBlockVec_eq_ok.mp hverify).1 0
  rw [findProposal, hget, ok_bind]
  cases raws with
  | nil => simp [List.length_eq_zero_iff.mp hlen.symm, findProposalIn]
  | cons first rest =>
      have hpos : 0 < (blockSlices blocks).length := by rw [← hlen]; simp
      have hfirst : rawTransactions (blockSlices blocks)[0] = .ok first := hitems 0 (by simp) hpos
      obtain ⟨txs, htxs, hcount, hread⟩ := rawTransactions_eq_ok.mp hfirst
      simp only [List.getElem?_eq_getElem hpos, htxs, hcount, ok_bind]
      have hloop : findRange (fun k => do
          let raw ← rawTransaction txs k
          findInTransaction proposalScript raw) first.length 0 =
          findList (findInTransaction proposalScript) first :=
        findRange_eq_findList first 0 fun k hk => by rw [hread k hk, ok_bind]
      rw [hloop]
      rfl

/-- The blocks are tallied by their raw transactions only. -/
theorem tallyBlocks_raws (hverify : verifyBlockVec compatible blocks = .ok ())
    (hraws : blockRaws blocks = .ok raws) (poll : Poll) :
    tallyBlocks poll blocks = tallyRaws poll raws := by
  obtain ⟨hlen, hitems⟩ := (blockRaws_eq_ok hverify).mp hraws
  rw [tallyBlocks, itemCount_blocks hverify, ok_bind, ← hlen]
  refine forRange_eq_foldlM raws 0 (fun i hi maps => ?_) Maps.empty
  rw [Nat.zero_add, blockAt_eq hverify (by omega), ok_bind]
  exact processBlock_raws (hitems i hi (by omega)) maps

/-- A count reads nothing but the raw transactions. -/
theorem countVote_raws (hverify : verifyBlockVec compatible blocks = .ok ())
    (hraws : blockRaws blocks = .ok raws) (proposalScript : Bytes) :
    countVote blocks proposalScript = countRaws raws proposalScript := by
  obtain ⟨hlen, -⟩ := (blockRaws_eq_ok hverify).mp hraws
  have hcount := itemCount_blocks hverify
  rw [← hlen] at hcount
  simp only [countVote, findProposal_raws hverify hraws, hcount, ok_bind,
    tallyBlocks_raws hverify hraws]
  rfl

/-! ## The result -/

variable {compatible' : Bool} {blocks' witnessRoot' : Bytes}

/-- **The end block hash binds the tally.**  Two block vectors with one number
of blocks that pass the integrity check and end in one header hash have the
same headers, the same raw transactions and so the same count for every
proposal script; or the strings hashed for them show a coincidence; or one of
them holds a raw transaction of 64 bytes. -/
theorem endHash_binds (hverify : verifyBlockVec compatible blocks = .ok ())
    (hverify' : verifyBlockVec compatible' blocks' = .ok ())
    (hcount : itemCount blocks = itemCount blocks')
    (hintegrity : verifyBlockIntegrity blocks witnessRoot = .ok (.ok ()))
    (hintegrity' : verifyBlockIntegrity blocks' witnessRoot' = .ok (.ok ()))
    (hend : endHash blocks = endHash blocks') :
    ∃ raws raws' hashed hashed', blockRaws blocks = .ok raws ∧ blockRaws blocks' = .ok raws' ∧
      hashedStrings blocks witnessRoot = .ok hashed ∧
      hashedStrings blocks' witnessRoot' = .ok hashed' ∧
      (((∃ headers, blockHeaders blocks = .ok headers ∧ blockHeaders blocks' = .ok headers) ∧
          raws = raws' ∧ ∀ proposalScript,
            countVote blocks proposalScript = countVote blocks' proposalScript) ∨
        Coincidence (hashed ++ hashed') ∨ ∃ block ∈ raws ++ raws', ∃ raw ∈ block,
          raw.length = 64) := by
  obtain ⟨raws, hashed, hraws, hhashed, hlen, hblocks⟩ := blockRaws_of_integrity hverify hintegrity
  obtain ⟨raws', hashed', hraws', hhashed', hlen', hblocks'⟩ :=
    blockRaws_of_integrity hverify' hintegrity'
  refine ⟨raws, raws', hashed, hashed', hraws, hraws', hhashed, hhashed', ?_⟩
  rw [or_iff_not_imp_right, not_or]
  intro h
  obtain ⟨hclean, hshort⟩ := h
  obtain ⟨hcol, hzero⟩ := separated_of_not_coincidence hclean
  have h64 : ∀ block ∈ raws ++ raws', ∀ raw ∈ block, raw.length ≠ 64 :=
    fun block hblock raw hraw heq => hshort ⟨block, hblock, raw, hraw, heq⟩
  -- the two chains have one length and one last hash
  rw [itemCount_blocks hverify, itemCount_blocks hverify', Except.ok.injEq] at hcount
  obtain ⟨hne, hlinks, -⟩ := (verifyBlockIntegrity_ok hverify).mp hintegrity
  obtain ⟨-, hlinks', -⟩ := (verifyBlockIntegrity_ok hverify').mp hintegrity'
  obtain ⟨n, hn⟩ : ∃ n, (blockSlices blocks).length = n + 1 :=
    Nat.exists_eq_succ_of_ne_zero (by simpa using hne)
  have hn' : (blockSlices blocks').length = n + 1 := by omega
  rw [endHash_eq hverify hn, endHash_eq hverify' hn', Except.ok.injEq] at hend
  have hheaders : (blockSlices blocks).map headerSlice = (blockSlices blocks').map headerSlice := by
    refine links_inj (fun header => (blake2b256 header).val) parentField (by simpa using hn)
      (by simpa using hn') hlinks.headers hlinks'.headers ?_ ?_
    · intro x hx y hy heq
      exact hcol _ (mem_hashed_of_header hlen hblocks x hx) _
        (mem_hashed_of_header hlen' hblocks' y hy) (FixedBytes.ext heq)
    · simpa using congrArg FixedBytes.val hend
  -- equal headers carry equal roots, hence equal raw transactions
  have hrawsEq : raws = raws' := by
    apply List.ext_getElem (by omega)
    intro i hi hi'
    have hheader :
        headerSlice ((blockSlices blocks)[i]) = headerSlice (blockSlices blocks')[i] := by
      have hat := congrArg (fun l => l[i]?) hheaders
      simp only [List.getElem?_map] at hat
      rw [List.getElem?_eq_getElem (by omega), List.getElem?_eq_getElem (by omega)] at hat
      exact Option.some.inj hat
    exact (hblocks i (by omega) hi).raws_unique (hblocks' i (by omega) hi') hheader hcol hzero
      (h64 _ (by simp)) (h64 _ (by simp))
  refine ⟨⟨_, blockHeaders_eq hverify, ?_⟩, hrawsEq, fun proposalScript => ?_⟩
  · rw [blockHeaders_eq hverify', hheaders]
  · rw [countVote_raws hverify hraws, countVote_raws hverify' hraws', hrawsEq]

end Code

namespace Sample

def header (parent root : Nat) : Bytes :=
  List.replicate 32 0 ++ (digest parent).val ++ (digest root).val ++ List.replicate 112 0

def header0 : Bytes := header 0
  0x680582d91319ea77411ec7c439c9fdde46356a5e88e48a9ac8b8e0934e1aa136

def header1 : Bytes := header
  0x432771b2624c07f1b19395823ae7fbd79cb1507c6baf50a9105a8bead746a8e9
  0x670b578fcc110c6d4b2ee03773d2bf5eed58ffe2faffae5c84839f8b67705af3

def vote1 : Bytes := voteTx 5 [outPoint 7 0] [outPoint 6 0]

def spend1 : Bytes := spendTx 5 [outPoint 7 1]

/-- Two linked blocks: a proposal, then a vote and a transfer. -/
def block0 (witnesses : List Bytes) : Bytes :=
  Block.newBuilder header0 [Transaction.newBuilder proposalTx witnesses]

def block1 (witnesses : List Bytes) : Bytes :=
  Block.newBuilder header1 [Transaction.newBuilder vote1 witnesses,
    Transaction.newBuilder spend1 witnesses]

def chainOf (witnesses : List Bytes) : Bytes :=
  BlockVec.newBuilder [block0 witnesses, block1 witnesses]

def chain : Bytes := chainOf []

def witnessRoot0 : Hash32 :=
  digest 0xef470094d74e03236b3b6c2896ca7b8a1bf931e06c303f6679f9d7ea1072f1cb

def witnessRoot1 : Hash32 :=
  digest 0x186a7829c41c62b0be7be5af1b83a8f9f209542a9e781dd863a1011c3b47df52

def witnessRoots : Bytes := buildFixVec [witnessRoot0.val, witnessRoot1.val]

/-- The digests of the strings hashed for `chain`. -/
def chainDigests : List (Bytes × Nat) := [
  (proposalTx, 0x0ca0c58bce67fa9017258a3b5c8206179f57f7cfa87b3a4c925c2b00c9610463),
  (vote1, 0x239a5d0cf508be9c6699f827b64a9f2608b795a9bd0c64fb60263c8a675c3cea),
  (spend1, 0x4e973badc3beeef4889237c08927f07b65789977ddabdf46796e294f286589f1),
  (mergeInput (digest 0x239a5d0cf508be9c6699f827b64a9f2608b795a9bd0c64fb60263c8a675c3cea)
    (digest 0x4e973badc3beeef4889237c08927f07b65789977ddabdf46796e294f286589f1),
    0x662ac342957b036d5c6919b71ab98eaef2fcf363b957d7f93fd344098df9723b),
  (mergeInput (digest 0x0ca0c58bce67fa9017258a3b5c8206179f57f7cfa87b3a4c925c2b00c9610463)
    witnessRoot0, 0x680582d91319ea77411ec7c439c9fdde46356a5e88e48a9ac8b8e0934e1aa136),
  (mergeInput (digest 0x662ac342957b036d5c6919b71ab98eaef2fcf363b957d7f93fd344098df9723b)
    witnessRoot1, 0x670b578fcc110c6d4b2ee03773d2bf5eed58ffe2faffae5c84839f8b67705af3),
  (header0, 0x432771b2624c07f1b19395823ae7fbd79cb1507c6baf50a9105a8bead746a8e9),
  (header1, 0xc6171fa115d2d75041618700a9eb22bee164fa3cfcec8dd770c89cf288d1dd5e)]

scoped instance chainBlake2b : Blake2b := tableBlake2b (scriptDigests ++ chainDigests)

/-- The checks of the guest pass on both vectors, with one count and one last hash. -/
theorem chains_check : (verifyBlockVec false chain = .ok () ∧
      verifyBlockIntegrity chain witnessRoots = .ok (.ok ())) ∧
    (verifyBlockVec false (chainOf [[1, 2, 3]]) = .ok () ∧
      verifyBlockIntegrity (chainOf [[1, 2, 3]]) witnessRoots = .ok (.ok ())) ∧
    itemCount chain = itemCount (chainOf [[1, 2, 3]]) ∧
    endHash chain = endHash (chainOf [[1, 2, 3]]) := by
  decide +kernel

end Sample

open Sample in
/-- Other transaction wrappers, same end block. -/
theorem endHash_binds_chain :
    ∃ raws raws' hashed hashed', blockRaws chain = .ok raws ∧
      blockRaws (chainOf [[1, 2, 3]]) = .ok raws' ∧
      hashedStrings chain witnessRoots = .ok hashed ∧
      hashedStrings (chainOf [[1, 2, 3]]) witnessRoots = .ok hashed' ∧
      (((∃ headers, blockHeaders chain = .ok headers ∧
            blockHeaders (chainOf [[1, 2, 3]]) = .ok headers) ∧
          raws = raws' ∧ ∀ proposalScript,
            countVote chain proposalScript = countVote (chainOf [[1, 2, 3]]) proposalScript) ∨
        Coincidence (hashed ++ hashed') ∨ ∃ block ∈ raws ++ raws', ∃ raw ∈ block,
          raw.length = 64) := by
  obtain ⟨⟨hverify, hintegrity⟩, ⟨hverify', hintegrity'⟩, hcount, hend⟩ := chains_check
  exact endHash_binds hverify hverify' hcount hintegrity hintegrity' hend

end CkbVote
