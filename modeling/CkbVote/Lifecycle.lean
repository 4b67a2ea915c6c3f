import CkbVote.ProposalTypeScript
import CkbVote.VoteAgreement
import Mathlib.Data.Set.Function

/-!
# The life of a proposal

Over a chain history in which both type scripts run as CKB runs them, a
proposal script is created once, keeps its cell until that cell is spent, never
comes back, and is voted on in between only.

A live cell has an origin: an initial cell, or an output that no later
transaction has spent (`origin_of_live`).  Two creations of one proposal script
carry one Type ID, hence spend one first input, hence are one transaction
(`creation_unique`).  A vote needs the proposal among its live cell deps, which
puts it after the creation and not after the consumption.
-/

namespace CkbVote

open Octets Molecule

/-! ## Live cells along a history -/

/-- The live cells before transaction `k`. -/
def liveAt (live0 : Live) (txs : List ChainTx) (k : Nat) : Live :=
  (txs.take k).foldl (fun live tx => tx.applyTo live) live0

/-- Output `i` of transaction `t`. -/
def OutputAt (txs : List ChainTx) (t i : Nat) (cell : Cell) : Prop :=
  ∃ tx, txs[t]? = some tx ∧ tx.outputs[i]? = some cell

/-- Transaction `t` has an out point among its inputs. -/
def SpentAt (txs : List ChainTx) (t : Nat) (op : OutPoint) : Prop :=
  ∃ tx, txs[t]? = some tx ∧ op ∈ tx.inputs.map CellInput.previousOutput

/-- Where a cell that is live before transaction `k` comes from. -/
inductive Origin (live0 : Live) (txs : List ChainTx) (k : Nat) (op : OutPoint) (cell : Cell) : Prop
  | initial (hlive : live0 op = some cell)
  | output (t i : Nat) (tx : ChainTx) (ht : t < k) (htx : txs[t]? = some tx)
      (hcell : tx.outputs[i]? = some cell) (hop : outPointOf tx.hash i = op)
      (hunspent : ∀ t', t < t' → t' < k → ¬ SpentAt txs t' op)

variable {live0 : Live} {txs : List ChainTx}

theorem liveAt_succ {k : Nat} {tx : ChainTx} (h : txs[k]? = some tx) :
    liveAt live0 txs (k + 1) = tx.applyTo (liveAt live0 txs k) := by
  rw [liveAt, List.take_add_one, h, Option.toList_some, List.foldl_concat]
  rfl

/-- After the end of the history nothing changes. -/
theorem liveAt_succ_of_none {k : Nat} (h : txs[k]? = none) :
    liveAt live0 txs (k + 1) = liveAt live0 txs k := by
  rw [liveAt, List.take_add_one, h, Option.toList_none, List.append_nil]
  rfl

/-- Transactions with no input in common spend each cell once. -/
theorem spent_once_of_pairwise
    (h : txs.Pairwise fun tx tx' => ∀ op ∈ tx.inputs.map CellInput.previousOutput,
      op ∉ tx'.inputs.map CellInput.previousOutput)
    {t t' : Nat} {op : OutPoint} (hspent : SpentAt txs t op) (hspent' : SpentAt txs t' op) :
    t = t' := by
  obtain ⟨tx, htx, hop⟩ := hspent
  obtain ⟨tx', htx', hop'⟩ := hspent'
  obtain ⟨ht, rfl⟩ := List.getElem?_eq_some_iff.mp htx
  obtain ⟨ht', rfl⟩ := List.getElem?_eq_some_iff.mp htx'
  rw [List.pairwise_iff_getElem] at h
  by_contra hne
  rcases Nat.lt_or_gt_of_ne hne with hlt | hlt
  · exact h t t' ht ht' hlt op hop hop'
  · exact h t' t ht' ht hlt op hop' hop

/-- One transaction keeps a cell that it does not spend. -/
theorem Origin.succ {k : Nat} {op : OutPoint} {cell : Cell} (h : Origin live0 txs k op cell)
    (hunspent : ¬ SpentAt txs k op) : Origin live0 txs (k + 1) op cell := by
  cases h with
  | initial hlive => exact .initial hlive
  | output t i tx ht htx hcell hop hbefore =>
      refine .output t i tx (by omega) htx hcell hop fun t' htt' ht' => ?_
      rcases Nat.lt_succ_iff_lt_or_eq.mp ht' with hlt | rfl
      · exact hbefore t' htt' hlt
      · exact hunspent

/-- **Origin.**  Every live cell has one. -/
theorem origin_of_live {k : Nat} {op : OutPoint} {cell : Cell}
    (h : liveAt live0 txs k op = some cell) : Origin live0 txs k op cell := by
  induction k with
  | zero => exact .initial h
  | succ k ih =>
      cases htx : txs[k]? with
      | none =>
          rw [liveAt_succ_of_none htx] at h
          refine (ih h).succ ?_
          intro h
          obtain ⟨tx, htx', -⟩ := h
          rw [htx] at htx'
          cases htx'
      | some tx =>
          rw [liveAt_succ htx, ChainTx.applyTo] at h
          cases hcreated : tx.created op with
          | some created =>
              rw [hcreated] at h
              obtain rfl : created = cell := Option.some.inj h
              obtain ⟨i, hcell, hop⟩ := ChainTx.created_eq_some hcreated
              exact .output k i tx (Nat.lt_succ_self k) htx hcell hop fun t' ht ht' => by omega
          | none =>
              rw [hcreated] at h
              by_cases hspent : op ∈ tx.inputs.map CellInput.previousOutput
              · rw [if_pos hspent] at h
                cases h
              · rw [if_neg hspent] at h
                refine (ih h).succ ?_
                intro h
                obtain ⟨tx', htx', hmem⟩ := h
                rw [htx] at htx'
                cases htx'
                exact hspent hmem

/-! ## Histories -/

section Code

variable [Blake2b] (ext : ProposalTypeScript.External) (IsProposal IsVote : Bytes → Prop)

/-- A transaction a node takes: it resolves, and where an input or an output
carries one of the two type scripts, that script accepts. -/
def Accepted (live : Live) (tx : ChainTx) : Prop :=
  ∃ headerOf rtx, resolve live headerOf tx = some rtx ∧
    ∀ cell ∈ rtx.inputs ++ tx.outputs, ∀ script, cell.type_ = some script →
      (IsProposal script → ProposalTypeScript.run ext rtx script = .ok ()) ∧
      (IsVote script → VoteTypeScript.run rtx script = .ok ())

/-- A cellbase spends no cell, and its outputs carry no type script. -/
def Cellbase (tx : ChainTx) : Prop := tx.inputs = [] ∧ ∀ cell ∈ tx.outputs, cell.type_ = none

/-- A chain history from live cells without proposals and votes.  `IsProposal`
and `IsVote` tell which type scripts refer to the code of the two scripts. -/
structure History (live0 : Live) (txs : List ChainTx) : Prop where
  starts_without : ∀ op cell script, live0 op = some cell → cell.type_ = some script →
    ¬ IsProposal script ∧ ¬ IsVote script
  spent_once : ∀ t t' op, SpentAt txs t op → SpentAt txs t' op → t = t'
  accepted : ∀ t tx, txs[t]? = some tx →
    Cellbase tx ∨ Accepted ext IsProposal IsVote (liveAt live0 txs t) tx

/-- First input and position of the first group output: what a Type ID hashes. -/
def typeIdString (tx : ChainTx) (script : Bytes) : Option Bytes := do
  let input ← tx.inputs.head?
  let index ← tx.outputs.findIdx? fun cell => cell.typeHash = some (blake2b256 script)
  some (input.asSlice ++ leBytes 8 index)

/-- `check_type_id(0, 20)` on a creation. -/
def ChecksTypeId : Prop := ∀ rtx script, group script rtx.inputs = [] →
  group script rtx.tx.outputs ≠ [] →
  (ext.checkTypeId rtx script 0 20 = true ↔ (group script rtx.tx.outputs).length ≤ 1 ∧
    ∃ args s, scriptArgs script = .ok args ∧ typeIdString rtx.tx script = some s ∧
      slice args 0 20 = (blake160 s).val)

/-- The strings hashed for Type IDs. -/
def typeIdStrings (txs : List ChainTx) : Set Bytes :=
  {s | ∃ tx ∈ txs, ∃ script, IsProposal script ∧ typeIdString tx script = some s}

omit [Blake2b] in
/-- The type scripts in a history. -/
def typeScripts (live0 : Live) (txs : List ChainTx) : Set Bytes :=
  {s | ∃ cell : Cell, cell.type_ = some s ∧
    ((∃ op, live0 op = some cell) ∨ ∃ t i, OutputAt txs t i cell)}

/-- Transaction `t` spends a cell with the script. -/
def Consumes (live0 : Live) (txs : List ChainTx) (script : Bytes) (t : Nat) : Prop :=
  ∃ op cell, SpentAt txs t op ∧ liveAt live0 txs t op = some cell ∧ cell.type_ = some script

/-- Transaction `t` has an output with the script. -/
def Creates (txs : List ChainTx) (script : Bytes) (t : Nat) : Prop :=
  ∃ i cell, OutputAt txs t i cell ∧ cell.type_ = some script

/-- What a proposal script and the votes on it go through. -/
structure Lifecycle (live0 : Live) (txs : List ChainTx) (proposalScript : Bytes) : Prop where
  one_output : ∀ t t' i i' cell cell', OutputAt txs t i cell → cell.type_ = some proposalScript →
    OutputAt txs t' i' cell' → cell'.type_ = some proposalScript → t = t' ∧ i = i'
  created : ∀ k op cell, liveAt live0 txs k op = some cell → cell.type_ = some proposalScript →
    ∃ t < k, ∃ i tx, txs[t]? = some tx ∧ tx.outputs[i]? = some cell ∧ op = outPointOf tx.hash i
  unchanged : ∀ k k' op op' cell cell', liveAt live0 txs k op = some cell →
    cell.type_ = some proposalScript → liveAt live0 txs k' op' = some cell' →
    cell'.type_ = some proposalScript → op = op' ∧ cell = cell'
  never_again : ∀ t, Consumes live0 txs proposalScript t → ∀ t' ≥ t, ¬ Creates txs proposalScript t'
  votes : ∀ t j cell script, OutputAt txs t j cell → cell.type_ = some script → IsVote script →
    scriptArgs script = .ok (blake160 proposalScript).val →
    (∃ t' < t, Creates txs proposalScript t') ∧ ∀ t', Consumes live0 txs proposalScript t' → t ≤ t'

/-! ## Creation -/

variable {ext IsProposal IsVote} {proposalScript : Bytes}

/-- A transaction with a proposal or a vote among its outputs was accepted. -/
theorem accepted_of_output (hhist : History ext IsProposal IsVote live0 txs) {t i : Nat}
    {cell : Cell} {script : Bytes} (hout : OutputAt txs t i cell)
    (htype : cell.type_ = some script) :
    ∃ tx headerOf rtx, txs[t]? = some tx ∧ tx.outputs[i]? = some cell ∧
      resolve (liveAt live0 txs t) headerOf tx = some rtx ∧ cell ∈ group script tx.outputs ∧
      (IsProposal script → ProposalTypeScript.run ext rtx script = .ok ()) ∧
      (IsVote script → VoteTypeScript.run rtx script = .ok ()) := by
  obtain ⟨tx, htx, hcell⟩ := hout
  have hmem := List.mem_of_getElem? hcell
  rcases hhist.accepted t tx htx with ⟨-, huntyped⟩ | ⟨headerOf, rtx, hresolve, hscripts⟩
  · rw [huntyped cell hmem] at htype
    cases htype
  · refine ⟨tx, headerOf, rtx, htx, hcell, hresolve, ?_,
      hscripts cell (List.mem_append_right _ hmem) script htype⟩
    exact List.mem_filter.mpr ⟨hmem, by simp [Cell.typeHash, htype]⟩

/-- A creation hashes its first input into the args of the script. -/
theorem typeId_of_output (hhist : History ext IsProposal IsVote live0 txs)
    (hcheck : ChecksTypeId ext) (hproposal : IsProposal proposalScript) {t i : Nat} {cell : Cell}
    (hout : OutputAt txs t i cell) (htype : cell.type_ = some proposalScript) :
    ∃ tx args s, txs[t]? = some tx ∧ tx.outputs[i]? = some cell ∧
      (group proposalScript tx.outputs).length = 1 ∧ scriptArgs proposalScript = .ok args ∧
      typeIdString tx proposalScript = some s ∧ slice args 0 20 = (blake160 s).val := by
  obtain ⟨tx, headerOf, rtx, htx, hcell, hresolve, hgroup, hrun, -⟩ :=
    accepted_of_output hhist hout htype
  obtain rfl := (resolves_of_resolve hresolve).tx_eq
  have hne : group proposalScript rtx.tx.outputs ≠ [] := List.ne_nil_of_mem hgroup
  have hcreation := ProposalTypeScript.creation_of_run (hrun hproposal) hne
  obtain ⟨-, args, s, hargs, hs, hslice⟩ :=
    (hcheck rtx proposalScript hcreation.no_input hne).mp hcreation.type_id
  exact ⟨rtx.tx, args, s, htx, hcell, hcreation.one_output, hargs, hs, hslice⟩

omit [Blake2b] in
/-- Two positions in a list that pass a test only one item passes. -/
theorem getElem?_unique {α : Type} {p : α → Bool} {l : List α} (h : (l.filter p).length = 1)
    {i j : Nat} {a b : α} (hi : l[i]? = some a) (hj : l[j]? = some b) (ha : p a) (hb : p b) :
    i = j := by
  induction l generalizing i j with
  | nil => cases hi
  | cons x l ih =>
      cases i with
      | zero =>
          cases j with
          | zero => rfl
          | succ j =>
              obtain rfl : x = a := Option.some.inj hi
              have hmem : b ∈ l.filter p := List.mem_filter.mpr ⟨List.mem_of_getElem? hj, hb⟩
              have hpos := List.length_pos_of_mem hmem
              rw [List.filter_cons_of_pos ha, List.length_cons] at h
              omega
      | succ i =>
          have hmem : a ∈ l.filter p := List.mem_filter.mpr ⟨List.mem_of_getElem? hi, ha⟩
          have hpos := List.length_pos_of_mem hmem
          by_cases hx : p x
          · rw [List.filter_cons_of_pos hx, List.length_cons] at h
            omega
          · rw [List.filter_cons_of_neg hx] at h
            cases j with
            | zero =>
                obtain rfl : x = b := Option.some.inj hj
                exact absurd hb hx
            | succ j => rw [ih h hi hj]

omit [Blake2b] in
/-- A serialized input tells its out point. -/
theorem CellInput.asSlice_inj {input input' : CellInput} {a b : Bytes}
    (h : input.asSlice ++ a = input'.asSlice ++ b) :
    input.previousOutput = input'.previousOutput := by
  rw [CellInput.asSlice, CellInput.asSlice, List.append_assoc, List.append_assoc] at h
  have hrest := (List.append_inj h (by simp)).2
  exact FixedBytes.ext (List.append_inj hrest (by simp)).1

/-- The string hashed for a Type ID begins with an input of the transaction. -/
theorem spent_of_typeIdString {tx : ChainTx} {t : Nat} {script s : Bytes} (htx : txs[t]? = some tx)
    (h : typeIdString tx script = some s) :
    ∃ (input : CellInput) (index : Nat), s = input.asSlice ++ leBytes 8 index ∧
      SpentAt txs t input.previousOutput := by
  simp only [typeIdString, Option.bind_eq_bind, Option.bind_eq_some_iff, Option.some.injEq] at h
  obtain ⟨input, hinput, index, -, rfl⟩ := h
  exact ⟨input, index, rfl, tx, htx, List.mem_map.mpr ⟨input, List.mem_of_head? hinput, rfl⟩⟩

/-- **One creation.**  Two outputs with one proposal script carry one Type ID;
they spend one first input, so they are one output. -/
theorem creation_unique (hhist : History ext IsProposal IsVote live0 txs)
    (hcheck : ChecksTypeId ext) (hids : Set.InjOn blake160 (typeIdStrings IsProposal txs))
    (hproposal : IsProposal proposalScript) {t t' i i' : Nat} {cell cell' : Cell}
    (hout : OutputAt txs t i cell) (htype : cell.type_ = some proposalScript)
    (hout' : OutputAt txs t' i' cell') (htype' : cell'.type_ = some proposalScript) :
    t = t' ∧ i = i' := by
  obtain ⟨tx, args, s, htx, hcell, hone, hargs, hs, hslice⟩ :=
    typeId_of_output hhist hcheck hproposal hout htype
  obtain ⟨tx', args', s', htx', hcell', -, hargs', hs', hslice'⟩ :=
    typeId_of_output hhist hcheck hproposal hout' htype'
  obtain rfl : args = args' := Except.ok.inj (hargs.symm.trans hargs')
  have hsame : s = s' := hids ⟨tx, List.mem_of_getElem? htx, proposalScript, hproposal, hs⟩
    ⟨tx', List.mem_of_getElem? htx', proposalScript, hproposal, hs'⟩
    (FixedBytes.ext (hslice.symm.trans hslice'))
  obtain ⟨input, index, heq, hspent⟩ := spent_of_typeIdString htx hs
  obtain ⟨input', index', heq', hspent'⟩ := spent_of_typeIdString htx' hs'
  have hinput := CellInput.asSlice_inj (heq.symm.trans (hsame.trans heq'))
  obtain rfl : t = t' := hhist.spent_once t t' _ hspent (hinput ▸ hspent')
  rw [htx] at htx'
  cases htx'
  refine ⟨rfl, getElem?_unique hone hcell hcell' ?_ ?_⟩
  · simp [Cell.typeHash, htype]
  · simp [Cell.typeHash, htype']

/-- A live proposal is an output of the history. -/
theorem output_of_live (hhist : History ext IsProposal IsVote live0 txs)
    (hproposal : IsProposal proposalScript) {k : Nat} {op : OutPoint} {cell : Cell}
    (hlive : liveAt live0 txs k op = some cell) (htype : cell.type_ = some proposalScript) :
    ∃ t < k, ∃ i tx, txs[t]? = some tx ∧ tx.outputs[i]? = some cell ∧ op = outPointOf tx.hash i ∧
      ∀ t', t < t' → t' < k → ¬ SpentAt txs t' op := by
  cases origin_of_live hlive with
  | initial hinitial =>
      exact absurd hproposal (hhist.starts_without op cell proposalScript hinitial htype).1
  | output t i tx ht htx hcell hop hunspent =>
      exact ⟨t, ht, i, tx, htx, hcell, hop.symm, hunspent⟩

/-! ## Votes -/

omit [Blake2b] in
/-- The script of a live cell is one of the history's. -/
theorem mem_typeScripts_of_live {k : Nat} {op : OutPoint} {cell : Cell} {script : Bytes}
    (hlive : liveAt live0 txs k op = some cell) (htype : cell.type_ = some script) :
    script ∈ typeScripts live0 txs := by
  refine ⟨cell, htype, ?_⟩
  cases origin_of_live hlive with
  | initial hinitial => exact Or.inl ⟨op, hinitial⟩
  | output t i tx ht htx hcell hop hunspent => exact Or.inr ⟨t, i, tx, htx, hcell⟩

/-- A vote has its proposal among the live cells. -/
theorem proposal_live_of_vote (hhist : History ext IsProposal IsVote live0 txs)
    (hscripts : Set.InjOn blake160 (insert proposalScript (typeScripts live0 txs)))
    {t j : Nat} {cell : Cell} {script : Bytes} (hout : OutputAt txs t j cell)
    (htype : cell.type_ = some script) (hvote : IsVote script)
    (hargs : scriptArgs script = .ok (blake160 proposalScript).val) :
    ∃ op dep, liveAt live0 txs t op = some dep ∧ dep.type_ = some proposalScript := by
  obtain ⟨tx, headerOf, rtx, htx, hcell, hresolve, hgroup, -, hrun⟩ :=
    accepted_of_output hhist hout htype
  have hresolves := resolves_of_resolve hresolve
  obtain rfl := hresolves.tx_eq
  rcases VoteTypeScript.run_eq_ok (hrun hvote) with hnone | ⟨voteOutput, hcreation⟩
  · exact absurd hnone (List.ne_nil_of_mem hgroup)
  · obtain ⟨dep, hdep, named, hnamed, hblake⟩ := hcreation.proposal
    have hlive := hresolves.live_dep dep hdep
    have hdigest : blake160 named = blake160 proposalScript :=
      FixedBytes.ext (Except.ok.inj (hblake.symm.trans hargs))
    have hsame : named = proposalScript := hscripts
      (Set.mem_insert_of_mem _ (mem_typeScripts_of_live hlive hnamed)) (Set.mem_insert _ _) hdigest
    exact ⟨dep.1, dep.2, hlive, hsame ▸ hnamed⟩

/-- **Lifecycle.**  In every history, a proposal script has one output, keeps
its cell unchanged, never comes back after its consumption, and is voted on
strictly after its creation and not after its consumption. -/
theorem lifecycle_of_history (hhist : History ext IsProposal IsVote live0 txs)
    (hcheck : ChecksTypeId ext) (hids : Set.InjOn blake160 (typeIdStrings IsProposal txs))
    (hscripts : Set.InjOn blake160 (insert proposalScript (typeScripts live0 txs)))
    (hproposal : IsProposal proposalScript) :
    Lifecycle IsVote live0 txs proposalScript := by
  have hunique : ∀ {t t' i i' : Nat} {cell cell' : Cell}, OutputAt txs t i cell →
      cell.type_ = some proposalScript → OutputAt txs t' i' cell' →
      cell'.type_ = some proposalScript → t = t' ∧ i = i' :=
    creation_unique hhist hcheck hids hproposal
  refine ⟨fun t t' i i' cell cell' => hunique, ?_, ?_, ?_, ?_⟩
  · intro k op cell hlive htype
    obtain ⟨t, ht, i, tx, htx, hcell, hop, -⟩ := output_of_live hhist hproposal hlive htype
    exact ⟨t, ht, i, tx, htx, hcell, hop⟩
  · intro k k' op op' cell cell' hlive htype hlive' htype'
    obtain ⟨t, -, i, tx, htx, hcell, rfl, -⟩ := output_of_live hhist hproposal hlive htype
    obtain ⟨t', -, i', tx', htx', hcell', rfl, -⟩ := output_of_live hhist hproposal hlive' htype'
    obtain ⟨rfl, rfl⟩ := hunique ⟨tx, htx, hcell⟩ htype ⟨tx', htx', hcell'⟩ htype'
    rw [htx] at htx'
    cases htx'
    rw [hcell] at hcell'
    exact ⟨rfl, Option.some.inj hcell'⟩
  · rintro t ⟨op, cell, -, hlive, htype⟩ t' ht' ⟨i', cell', hout', htype'⟩
    obtain ⟨t0, ht0, i, tx, htx, hcell, -, -⟩ := output_of_live hhist hproposal hlive htype
    have hsame := (hunique ⟨tx, htx, hcell⟩ htype hout' htype').1
    omega
  · intro t j cell script hout htype hvote hargs
    obtain ⟨op, dep, hlive, hdep⟩ := proposal_live_of_vote hhist hscripts hout htype hvote hargs
    obtain ⟨t0, ht0, i, tx, htx, hcell, rfl, hunspent⟩ :=
      output_of_live hhist hproposal hlive hdep
    refine ⟨⟨t0, ht0, i, dep, ⟨tx, htx, hcell⟩, hdep⟩, ?_⟩
    intro t' h
    obtain ⟨op', consumed, hspent, hlive', htype'⟩ := h
    obtain ⟨t1, ht1, i1, tx1, htx1, hcell1, rfl, -⟩ :=
      output_of_live hhist hproposal hlive' htype'
    obtain ⟨rfl, rfl⟩ := hunique ⟨tx, htx, hcell⟩ hdep ⟨tx1, htx1, hcell1⟩ htype'
    rw [htx] at htx1
    cases htx1
    by_contra hlate
    exact hunspent t' ht1 (not_le.mp hlate) hspent

end Code

namespace Sample

/-- `check_type_id`, with the id taken from a prefix of the digest. -/
def checkTypeId [Blake2b] (rtx : ResolvedTx) (script : Bytes) (offset length : Nat) : Bool :=
  if (group script rtx.inputs).length > 1 ∨ (group script rtx.tx.outputs).length > 1 then false
  else if group script rtx.inputs ≠ [] then true
  else
    match scriptArgs script, typeIdString rtx.tx script with
    | .ok args, some s => slice args offset (offset + length) == (blake2b256 s).val.take length
    | _, _ => false

/-- No proof verifies. -/
def typeIdOnly [Blake2b] : ProposalTypeScript.External := ⟨checkTypeId, fun _ _ _ => false⟩

/-- The sample check is one of Type IDs. -/
theorem typeIdOnly_checks [Blake2b] : ChecksTypeId typeIdOnly := by
  intro rtx script hin hout
  simp only [typeIdOnly, checkTypeId, hin, List.length_nil]
  by_cases hlen : (group script rtx.tx.outputs).length ≤ 1
  · rw [if_neg (by omega), if_neg (by simp)]
    cases hargs : scriptArgs script with
    | error fault => simp
    | ok args =>
        cases hs : typeIdString rtx.tx script with
        | none => simp
        | some s => simp [hlen, blake160]
  · simp [hlen, not_le.mp hlen]

def founding : CellInput := ⟨FixedBytes.zero 8, outPoint 9 0⟩

def createTx : ChainTx :=
  ⟨digest 12, [], [], [founding], [⟨100, lockOf 9, some proposalScript, proposal⟩], []⟩

def castTx : ChainTx :=
  ⟨digest 13, [⟨outPointOf (digest 12) 0, 0⟩, ⟨outPoint 6 0, 0⟩], [], [voteInput],
    [⟨100, lockOf 5, some voteScript, Vote.newBuilder 1 100 [1]⟩], []⟩

/-- The header of block `number`, after the block of hash `parent`. -/
def lifeHeader (number : Nat) (parent : Hash32) : Bytes :=
  Header.newBuilder (RawHeader.newBuilder (leBytes 4 0) (leBytes 4 0) (leBytes 8 0)
    (leBytes 8 number) (leBytes 8 0) parent.val (List.replicate 32 0) (List.replicate 32 0)
    (List.replicate 32 0) (List.replicate 32 0)) (List.replicate 16 0)

def openingHash : Hash32 :=
  digest 0x358d951a80c39d02f5a4d21cc216d8f03fe48c94bbd98b8c36545c4b7c7cc118
def closingHash : Hash32 :=
  digest 0x4cf43b55365a950ce768136a484d70fa9dfe26a5344f41c7457dc6b53a01769f

/-- The headers of the first and the last block of the poll. -/
def openingHeader : Bytes := lifeHeader 1 (FixedBytes.zero 32)
def closingHeader : Bytes := lifeHeader 2 openingHash

def lifeHeaderOf (hash : Hash32) : Option Bytes :=
  if hash = openingHash then some openingHeader
  else if hash = closingHash then some closingHeader
  else none

/-- What a guest run on the poll commits. -/
def lifeValues : Bytes := PublicValues.newBuilder proposal openingHash.val closingHash.val
  proposalScript [1] (leBytes 8 100) (leBytes 8 0)

/-- One proof verifies, of those values under the key in the script. -/
def oneRun [Blake2b] : ProposalTypeScript.External :=
  ⟨checkTypeId, fun proof values vkHash => proof == [7] && values == lifeValues &&
    vkHash == '0' :: 'x' :: ProposalTypeScript.hexEncode (List.replicate 32 2)⟩

theorem oneRun_checks [Blake2b] : ChecksTypeId oneRun := typeIdOnly_checks

/-- The settlement. -/
def payTx : ChainTx :=
  ⟨digest 14, [], [openingHash, closingHash], [⟨FixedBytes.zero 8, outPointOf (digest 12) 0⟩],
    [⟨100, Script.default, none, []⟩],
    [build [[], buildBytes (build [buildBytes [7], lifeValues]), []]]⟩

def startCells : List (OutPoint × Cell) := [
  (outPoint 9 0, ⟨500, lockOf 9, none, []⟩),
  (outPoint 7 0, ⟨500, lockOf 5, none, []⟩),
  (outPoint 6 0, ⟨100, lockOf 5, some daoScript, List.replicate 8 0⟩)]

def start : Live := fun op => startCells.lookup op

def lifeDigests : List (Bytes × Nat) := [
  (founding.asSlice ++ leBytes 8 0,
    0x3c2fe552aea0f6f86a9b5602b53b904d67e495c840ea3b48329474f5971e70de),
  (voteInput.asSlice ++ leBytes 8 0,
    0x5a807a4a03c6385b8fe897b75aa753f6d40a0e6ad3341b70e5b411d517e7c62c),
  (proposalScript, 0x5d526417f8df01d65a596f75667b8a3a4df772e43f670701cd7bae5c07cdaf42),
  (voteScript, 0x930f26aa4842db41b70c420e484518100590a309c1189039c0cc598d8af8cf2),
  (daoScript, 0xcc77c4deac05d68ab5b26828f0bf4565a8d73113d7bb7e92b8362b8a74e58e58),
  (openingHeader, 0x358d951a80c39d02f5a4d21cc216d8f03fe48c94bbd98b8c36545c4b7c7cc118),
  (closingHeader, 0x4cf43b55365a950ce768136a484d70fa9dfe26a5344f41c7457dc6b53a01769f)]

scoped instance lifeBlake2b : Blake2b := tableBlake2b lifeDigests

/-- The type scripts under one code hash. -/
abbrev hasCode (codeHash : Bytes) : Bytes → Prop := fun script =>
  ScriptReader.codeHash script = .ok codeHash

/-- A creation, a vote and the settlement. -/
def life : List ChainTx := [createTx, castTx, payTx]

theorem mem_startCells {op : OutPoint} {cell : Cell} (h : start op = some cell) :
    (op, cell) ∈ startCells := by
  obtain ⟨before, after, heq, -⟩ := List.lookup_eq_some_iff.mp h
  rw [heq]
  simp

/-- The items of a list of three. -/
theorem getElem?_triple {α : Type} {a b c x : α} {t : Nat} (h : [a, b, c][t]? = some x) :
    t = 0 ∧ x = a ∨ t = 1 ∧ x = b ∨ t = 2 ∧ x = c := by
  match t with
  | 0 => exact Or.inl ⟨rfl, (Option.some.inj h).symm⟩
  | 1 => exact Or.inr (Or.inl ⟨rfl, (Option.some.inj h).symm⟩)
  | 2 => exact Or.inr (Or.inr ⟨rfl, (Option.some.inj h).symm⟩)
  | t + 3 => cases h

/-- A transaction resolves and passes the scripts it runs. -/
def RunsPass [Blake2b] (ext : ProposalTypeScript.External) (live : Live)
    (headerOf : Hash32 → Option Bytes) (tx : ChainTx) (rtx : ResolvedTx) : Prop :=
  resolve live headerOf tx = some rtx ∧
    ∀ script ∈ (rtx.inputs ++ tx.outputs).filterMap Cell.type_,
      (hasCode (List.replicate 32 1) script → ProposalTypeScript.run ext rtx script = .ok ()) ∧
      (hasCode voteCodeHash script → VoteTypeScript.run rtx script = .ok ())

instance [Blake2b] (ext : ProposalTypeScript.External) (live : Live)
    (headerOf : Hash32 → Option Bytes) (tx : ChainTx) (rtx : ResolvedTx) :
    Decidable (RunsPass ext live headerOf tx rtx) :=
  inferInstanceAs (Decidable (_ ∧ _))

/-- A transaction that passes is accepted. -/
theorem accepted_of_runsPass [Blake2b] {ext : ProposalTypeScript.External} {live : Live}
    {headerOf : Hash32 → Option Bytes} {tx : ChainTx} {rtx : ResolvedTx}
    (h : RunsPass ext live headerOf tx rtx) :
    Accepted ext (hasCode (List.replicate 32 1)) (hasCode voteCodeHash) live tx :=
  ⟨_, rtx, h.1, fun cell hcell script htype =>
    h.2 script (List.mem_filterMap.mpr ⟨cell, hcell, htype⟩)⟩

/-- The scripts of the start and of the transactions, and their digests. -/
theorem life_reads : hasCode (List.replicate 32 1) proposalScript ∧
    ((∀ script ∈ startCells.filterMap (fun p => p.2.type_), script = daoScript) ∧
      ¬ hasCode (List.replicate 32 1) daoScript ∧ ¬ hasCode voteCodeHash daoScript) ∧
    (∀ tx ∈ life, ∀ script ∈ tx.outputs.filterMap Cell.type_,
      script ∈ [proposalScript, voteScript, daoScript]) ∧
    (life.Pairwise fun tx tx' => ∀ op ∈ tx.inputs.map CellInput.previousOutput,
      op ∉ tx'.inputs.map CellInput.previousOutput) ∧
    (∀ a ∈ [proposalScript, voteScript, daoScript],
      ∀ b ∈ [proposalScript, voteScript, daoScript], blake160 a = blake160 b → a = b) ∧
    (∀ a ∈ [founding.asSlice ++ leBytes 8 0, voteInput.asSlice ++ leBytes 8 0],
      ∀ b ∈ [founding.asSlice ++ leBytes 8 0, voteInput.asSlice ++ leBytes 8 0],
        blake160 a = blake160 b → a = b) := by
  decide +kernel

def createResolved : ResolvedTx := ⟨createTx, [⟨500, lockOf 9, none, []⟩], [], []⟩

def castResolved : ResolvedTx := ⟨castTx, [⟨500, lockOf 5, none, []⟩], [
  (outPointOf (digest 12) 0, ⟨100, lockOf 9, some proposalScript, proposal⟩),
  (outPoint 6 0, ⟨100, lockOf 5, some daoScript, List.replicate 8 0⟩)], []⟩

def payResolved : ResolvedTx :=
  ⟨payTx, [⟨100, lockOf 9, some proposalScript, proposal⟩], [], [openingHeader, closingHeader]⟩

/-- The transactions pass. -/
theorem life_runs : RunsPass oneRun (liveAt start life 0) (fun _ => none) createTx createResolved ∧
    RunsPass oneRun (liveAt start life 1) (fun _ => none) castTx castResolved ∧
    RunsPass oneRun (liveAt start life 2) lifeHeaderOf payTx payResolved := by
  decide +kernel

/-- Three transactions that pass and have no input in common are a history. -/
theorem history_of_runsPass [Blake2b] {ext : ProposalTypeScript.External} {a b c : ChainTx}
    {ra rb rc : ResolvedTx} {headerOf : Hash32 → Option Bytes}
    (hinputs : [a, b, c].Pairwise fun tx tx' => ∀ op ∈ tx.inputs.map CellInput.previousOutput,
      op ∉ tx'.inputs.map CellInput.previousOutput)
    (ha : RunsPass ext (liveAt start [a, b, c] 0) (fun _ => none) a ra)
    (hb : RunsPass ext (liveAt start [a, b, c] 1) (fun _ => none) b rb)
    (hc : RunsPass ext (liveAt start [a, b, c] 2) headerOf c rc) :
    History ext (hasCode (List.replicate 32 1)) (hasCode voteCodeHash) start [a, b, c] := by
  obtain ⟨-, ⟨hall, hdao⟩, -⟩ := life_reads
  refine ⟨?_, ?_, ?_⟩
  · intro op cell script hlive htype
    obtain rfl := hall script (List.mem_filterMap.mpr ⟨_, mem_startCells hlive, htype⟩)
    exact hdao
  · exact fun t t' op => spent_once_of_pairwise hinputs
  · intro t tx htx
    rcases getElem?_triple htx with ⟨rfl, rfl⟩ | ⟨rfl, rfl⟩ | ⟨rfl, rfl⟩
    · exact Or.inr (accepted_of_runsPass ha)
    · exact Or.inr (accepted_of_runsPass hb)
    · exact Or.inr (accepted_of_runsPass hc)

theorem life_history :
    History oneRun (hasCode (List.replicate 32 1)) (hasCode voteCodeHash) start life := by
  obtain ⟨-, -, -, hinputs, -⟩ := life_reads
  obtain ⟨hcreate, hcast, hpay⟩ := life_runs
  exact history_of_runsPass hinputs hcreate hcast hpay

/-- A digest that tells the strings of a list apart. -/
theorem injOn_of_list (strings : List Bytes) {S : Set Bytes} (hS : ∀ s ∈ S, s ∈ strings)
    (h : ∀ a ∈ strings, ∀ b ∈ strings, blake160 a = blake160 b → a = b) : Set.InjOn blake160 S :=
  fun a ha b hb => h a (hS a ha) b (hS b hb)

theorem life_ids : Set.InjOn blake160 (typeIdStrings (hasCode (List.replicate 32 1)) life) := by
  obtain ⟨-, -, -, -, -, hids⟩ := life_reads
  refine injOn_of_list _ ?_ hids
  intro s ⟨tx, hmem, script, _, hs⟩
  simp only [typeIdString, Option.bind_eq_bind, Option.bind_eq_some_iff, Option.some.injEq] at hs
  obtain ⟨input, hinput, index, hindex, rfl⟩ := hs
  have hlt := (List.findIdx?_eq_some_iff_getElem.mp hindex).1
  rcases List.mem_cons.mp hmem with rfl | hmem
  · obtain rfl : founding = input := Option.some.inj hinput
    obtain rfl : index = 0 := Nat.lt_one_iff.mp hlt
    simp
  · rcases List.mem_pair.mp hmem with rfl | rfl
    · obtain rfl : voteInput = input := Option.some.inj hinput
      obtain rfl : index = 0 := Nat.lt_one_iff.mp hlt
      simp
    · -- the output of the settlement has no type script
      simp [payTx, Cell.typeHash] at hindex

theorem life_scripts : Set.InjOn blake160 (insert proposalScript (typeScripts start life)) := by
  obtain ⟨-, ⟨hstart, -⟩, hlife, -, hscripts, -⟩ := life_reads
  refine injOn_of_list _ ?_ hscripts
  intro s hs
  rcases hs with rfl | ⟨cell, htype, ⟨op, hlive⟩ | ⟨t, i, tx, htx, hcell⟩⟩
  · simp
  · have hdao := hstart s (List.mem_filterMap.mpr ⟨_, mem_startCells hlive, htype⟩)
    simp [hdao]
  · exact hlife tx (List.mem_of_getElem? htx) s
      (List.mem_filterMap.mpr ⟨cell, List.mem_of_getElem? hcell, htype⟩)

/-- The settlement consumes the proposal. -/
theorem life_consumes : Consumes start life proposalScript 2 :=
  ⟨outPointOf (digest 12) 0, ⟨100, lockOf 9, some proposalScript, proposal⟩,
    ⟨payTx, rfl, List.mem_singleton_self _⟩, by decide +kernel, rfl⟩

end Sample

open Sample in
/-- The life of the proposal up to its settlement. -/
theorem lifecycle_of_history_life : Consumes start life proposalScript 2 ∧
    Lifecycle (hasCode voteCodeHash) start life proposalScript :=
  ⟨life_consumes, lifecycle_of_history life_history oneRun_checks life_ids life_scripts
    life_reads.1⟩

end CkbVote
