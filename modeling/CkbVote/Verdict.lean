import CkbVote.Tally

/-!
# The verdict

`count_vote` sums the final vote map in saturating arithmetic, multiplies
`minimal_requirement` by 100000000 without an overflow check and compares.

`sumVotes_eq` gives both sums as exact sums cut off at `2 ^ 64 - 1`, and
`passes_iff` the comparison on exact sums.  `passed_exact_iff` states when the
outcome is the one that exact arithmetic gives: the wrapped product can let a
proposal pass below its requirement, and two sums beyond the cut-off tie.
-/

namespace CkbVote

open Octets Molecule

/-- What a ballot adds to the YES votes. -/
def yesWeight (ballot : Ballot) : Nat := if ballot.1 = 1 then ballot.2 else 0

/-- What a ballot adds to the NO votes: any other direction counts as NO. -/
def noWeight (ballot : Ballot) : Nat := if ballot.1 = 1 then 0 else ballot.2

/-- The exact sum over a vote map. -/
def exactSum (weight : Ballot → Nat) (voteMap : Std.ExtTreeMap Hash32 Ballot) : Nat :=
  (voteMap.toList.map fun entry => weight entry.2).sum

/-- The two sums are the exact ones, cut off. -/
theorem sumVotes_eq (voteMap : Std.ExtTreeMap Hash32 Ballot) : sumVotes voteMap =
    (min (exactSum yesWeight voteMap) maxU64, min (exactSum noWeight voteMap) maxU64) := by
  have hfold : ∀ (entries : List (Hash32 × Ballot)) (yes no : Nat),
      entries.foldl (fun sums entry =>
        if entry.2.1 = 1 then (saturatingAdd sums.1 entry.2.2, sums.2)
        else (sums.1, saturatingAdd sums.2 entry.2.2)) (min yes maxU64, min no maxU64) =
      (min (yes + (entries.map fun entry => yesWeight entry.2).sum) maxU64,
        min (no + (entries.map fun entry => noWeight entry.2).sum) maxU64) := by
    intro entries
    induction entries with
    | nil => simp
    | cons entry entries ih =>
        intro yes no
        simp only [List.foldl_cons, List.map_cons, List.sum_cons, yesWeight, noWeight]
        split_ifs with hdirection
        · rw [saturatingAdd_min, ih]
          simp only [yesWeight, noWeight]
          congr 2 <;> omega
        · rw [saturatingAdd_min, ih]
          simp only [yesWeight, noWeight]
          congr 2 <;> omega
  have hsum := hfold voteMap.toList 0 0
  rw [Nat.zero_min, Nat.zero_add, Nat.zero_add] at hsum
  rw [sumVotes, Std.ExtTreeMap.foldl_eq_foldl_toList]
  exact hsum

/-- The sum over a map, taken over any list of keys that has them all. -/
theorem exactSum_eq (weight : Ballot → Nat) {voteMap : Std.ExtTreeMap Hash32 Ballot}
    {keys : List Hash32} (hnodup : keys.Nodup)
    (hkeys : ∀ v : Hash32, voteMap[v]? ≠ none → v ∈ keys) :
    exactSum weight voteMap = (keys.map fun v => (voteMap[v]?).elim 0 weight).sum := by
  have hperm : voteMap.toList.Perm (keys.filterMap fun v => (voteMap[v]?).map fun b => (v, b)) := by
    refine (List.perm_ext_iff_of_nodup ?_ ?_).mpr fun entry => ?_
    · refine Std.ExtTreeMap.distinct_keys_toList.imp fun {a b} hne heq => hne ?_
      rw [heq]
      exact Std.ReflCmp.compare_self
    · refine hnodup.filterMap fun v v' entry hv hv' => ?_
      obtain ⟨b, -, rfl⟩ := Option.map_eq_some_iff.mp hv
      obtain ⟨b', -, heq⟩ := Option.map_eq_some_iff.mp hv'
      exact (congrArg Prod.fst heq).symm
    · obtain ⟨v, ballot⟩ := entry
      rw [Std.ExtTreeMap.mem_toList_iff_getElem?_eq_some, List.mem_filterMap]
      constructor
      · intro h
        exact ⟨v, hkeys v (by simp [h]), by simp [h]⟩
      · intro h
        obtain ⟨v', -, h⟩ := h
        obtain ⟨b, hb, heq⟩ := Option.map_eq_some_iff.mp h
        cases heq
        exact hb
  rw [exactSum, (hperm.map _).sum_nat]
  clear hperm hnodup hkeys
  induction keys with
  | nil => rfl
  | cons v keys ih =>
      rw [List.map_cons, List.sum_cons, ← ih]
      cases hv : voteMap[v]? with
      | none => simp [hv]
      | some b => simp [hv]

section Code

variable [Blake2b] {blocks proposalScript : Bytes} {poll : Poll} {txs : List WindowTx}

/-- The exact sums of the final map are the totals of the trace. -/
theorem exactSum_eq_total (weight : Ballot → Nat) {maps : Maps}
    (hmaps : ∀ v : Hash32, maps.voteMap[v]? = (Replay.replay blake2b256 txs).standing v) :
    exactSum weight maps.voteMap = Replay.total blake2b256 weight txs := by
  rw [exactSum_eq weight (List.nodup_dedup _) fun v hv =>
    Replay.mem_voters_of_standing (by rwa [hmaps v] at hv)]
  simp only [hmaps]
  rfl

/-- The requirement in shannon. -/
def requiredShannon (poll : Poll) : Nat := poll.minimalReq * 100000000

/-- `count_vote` returns a result that passed. -/
def Passes (blocks proposalScript : Bytes) : Prop :=
  ∃ result, countVote blocks proposalScript = .ok result ∧ result.passed = true

/-- The passing rule in exact arithmetic: the proposal is found, the blocks are
as many as it asks for, and the sums over the final vote map carry it. -/
def Carries (blocks proposalScript : Bytes) : Prop :=
  ∃ poll maps, LoopEnds blocks proposalScript poll maps ∧
    exactSum noWeight maps.voteMap < exactSum yesWeight maps.voteMap ∧
    requiredShannon poll < exactSum yesWeight maps.voteMap + exactSum noWeight maps.voteMap

/-- The passing rule that the code computes, on exact sums: NO below the
cut-off, and the product taken modulo `2 ^ 64`. -/
theorem passes_iff : Passes blocks proposalScript ↔
    ∃ poll maps, LoopEnds blocks proposalScript poll maps ∧
      exactSum noWeight maps.voteMap < exactSum yesWeight maps.voteMap ∧
      exactSum noWeight maps.voteMap < maxU64 ∧
      requiredShannon poll % 2 ^ 64 <
        exactSum yesWeight maps.voteMap + exactSum noWeight maps.voteMap := by
  have hverdict : ∀ (proposal : Bytes) (poll : Poll) (maps : Maps),
      (verdict proposal poll.minimalReq maps).passed = true ↔
        exactSum noWeight maps.voteMap < exactSum yesWeight maps.voteMap ∧
        exactSum noWeight maps.voteMap < maxU64 ∧
        requiredShannon poll % 2 ^ 64 <
          exactSum yesWeight maps.voteMap + exactSum noWeight maps.voteMap := by
    intro proposal poll maps
    simp only [verdict, sumVotes_eq, saturatingAdd, requiredShannon, maxU64, Bool.and_eq_true,
      decide_eq_true_eq]
    -- the product is even and the cut-off is odd
    omega
  constructor
  · intro h
    obtain ⟨result, hrun, hpassed⟩ := h
    obtain ⟨found, hfind, hrun⟩ := bind_eq_ok.mp hrun
    cases found with
    | none =>
        obtain ⟨_, -, hrun⟩ := bind_eq_ok.mp hrun
        cases hrun
        cases hpassed
    | some proposal =>
        obtain ⟨poll, hpoll, hrun⟩ := bind_eq_ok.mp hrun
        obtain ⟨count, hcount, hrun⟩ := bind_eq_ok.mp hrun
        split_ifs at hrun with hblocks
        · cases hrun
          cases hpassed
        · obtain ⟨maps, htally, hrun⟩ := bind_eq_ok.mp hrun
          cases hrun
          rw [not_not.mp hblocks] at hcount
          exact ⟨poll, maps, ⟨⟨proposal, hfind, hpoll, hcount⟩, htally⟩,
            (hverdict proposal poll maps).mp hpassed⟩
  · intro h
    obtain ⟨poll, maps, hends, hrule⟩ := h
    obtain ⟨proposal, -, hrun⟩ := countVote_of_loopEnds hends
    exact ⟨_, hrun, (hverdict proposal poll maps).mpr hrule⟩

/-- When the rule on `yes` and `no` is not changed by the machine arithmetic. -/
def ArithmeticExact (poll : Poll) (yes no : Nat) : Prop :=
  no < yes →
    (maxU64 ≤ no → yes + no ≤ requiredShannon poll) ∧
    (no < maxU64 → requiredShannon poll < yes + no ∨ yes + no ≤ requiredShannon poll % 2 ^ 64)

omit [Blake2b] in
/-- The comparisons of the code give the exact answer under the condition. -/
theorem arithmeticExact_iff {yes no : Nat} :
    (no < yes ∧ no < maxU64 ∧ requiredShannon poll % 2 ^ 64 < yes + no ↔
      no < yes ∧ requiredShannon poll < yes + no) ↔ ArithmeticExact poll yes no := by
  have hmod := Nat.mod_le (requiredShannon poll) (2 ^ 64)
  unfold ArithmeticExact
  omega

omit [Blake2b] in
/-- Totals below the cut-off and a product that fits are computed exactly. -/
theorem arithmeticExact_of_fits {yes no : Nat} (hno : no < maxU64)
    (hfits : requiredShannon poll < 2 ^ 64) : ArithmeticExact poll yes no := by
  intro _
  rw [Nat.mod_eq_of_lt hfits]
  omega

/-- **When the verdict is exact.**  A proposal passes exactly when exact
arithmetic carries it, if and only if the totals of the ballots that stand
after the window are ones on which the machine arithmetic makes no difference. -/
theorem passed_exact_iff (blocks proposalScript : Bytes) :
    (Passes blocks proposalScript ↔ Carries blocks proposalScript) ↔
      ∀ poll txs, PastBlockCheck blocks proposalScript poll → window poll blocks = .ok txs →
        ArithmeticExact poll (Replay.total blake2b256 yesWeight txs)
          (Replay.total blake2b256 noWeight txs) := by
  rw [passes_iff]
  constructor
  · intro hexact poll txs hpast hwindow
    obtain ⟨maps, hends, hmaps⟩ := loopEnds_of_window hpast hwindow
    rw [← exactSum_eq_total yesWeight hmaps, ← exactSum_eq_total noWeight hmaps,
      ← arithmeticExact_iff]
    constructor
    · intro hrule
      obtain ⟨poll', maps', hends', hcarries⟩ := hexact.mp ⟨poll, maps, hends, hrule⟩
      obtain ⟨rfl, rfl⟩ := hends.unique hends'
      exact hcarries
    · intro hcarries
      obtain ⟨poll', maps', hends', hrule⟩ := hexact.mpr ⟨poll, maps, hends, hcarries⟩
      obtain ⟨rfl, rfl⟩ := hends.unique hends'
      exact hrule
  · intro harith
    have hends_iff : ∀ poll maps, LoopEnds blocks proposalScript poll maps →
        ArithmeticExact poll (exactSum yesWeight maps.voteMap)
          (exactSum noWeight maps.voteMap) := by
      intro poll maps hends
      obtain ⟨txs, hwindow, hmaps⟩ := hends.exists_window
      rw [exactSum_eq_total yesWeight hmaps, exactSum_eq_total noWeight hmaps]
      exact harith poll txs hends.1 hwindow
    constructor
    · intro h
      obtain ⟨poll, maps, hends, hrule⟩ := h
      exact ⟨poll, maps, hends, (arithmeticExact_iff.mpr (hends_iff poll maps hends)).mp hrule⟩
    · intro h
      obtain ⟨poll, maps, hends, hcarries⟩ := h
      exact ⟨poll, maps, hends, (arithmeticExact_iff.mpr (hends_iff poll maps hends)).mpr hcarries⟩

end Code

section Wrapped

local instance (priority := 2000) wrapBlake2b : Blake2b := Sample.tableBlake2b Sample.scriptDigests

namespace Sample

/-- A proposal whose requirement times 100000000 is a multiple of `2 ^ 64`. -/
def wrapProposal : Bytes := Proposal.newBuilder 1 voteCodeHash [1] [] Script.default 0 (2 ^ 56)

def wrapPoll : Poll := { poll with minimalReq := 2 ^ 56 }

def wrapOutPoint : OutPoint :=
  ⟨(digest 0x1dbdaa8789e449b9e8d8e85a11b436d8f08d756bb6859e334eea316982b44956).val ++ leBytes 4 0,
    by simp⟩

/-- One vote of 100 shannon on that proposal. -/
def wrapped : Bytes := blocksOf
  [[rawTx [] [outPoint 9 0] (lockOf 9) proposalScript wrapProposal],
    [voteOn wrapOutPoint 5 [outPoint 7 0] [outPoint 6 0]]]

def wrappedWindow : List WindowTx :=
  [⟨[outPoint 9 0], []⟩, voteEntry 5 [outPoint 7 0] [outPoint 6 0]]

theorem wrapped_reads : BlockVecReader.verify false wrapped = .ok () ∧
    findProposal wrapped proposalScript = .ok (some wrapProposal) ∧
    readPoll wrapProposal proposalScript = .ok wrapPoll ∧ itemCount wrapped = .ok 2 ∧
    window wrapPoll wrapped = .ok wrappedWindow ∧
    Replay.total blake2b256 yesWeight wrappedWindow = 100 ∧
    Replay.total blake2b256 noWeight wrappedWindow = 0 := by
  decide +kernel

end Sample

open Sample in
/-- A millionth of a CKByte of votes passes a requirement of `2 ^ 56` CKBytes. -/
theorem wrapped_passes : BlockVecReader.verify false wrapped = .ok () ∧
    ¬ (Passes wrapped Sample.proposalScript ↔ Carries wrapped Sample.proposalScript) := by
  obtain ⟨hverify, hfind, hpoll, hcount, hwindow, hyes, hno⟩ := wrapped_reads
  have hpast : PastBlockCheck wrapped Sample.proposalScript wrapPoll :=
    ⟨wrapProposal, hfind, hpoll, hcount⟩
  obtain ⟨maps, hends, hmaps⟩ := loopEnds_of_window hpast hwindow
  rw [← exactSum_eq_total yesWeight hmaps] at hyes
  rw [← exactSum_eq_total noWeight hmaps] at hno
  refine ⟨hverify, fun hexact => ?_⟩
  have hpasses : Passes wrapped Sample.proposalScript :=
    passes_iff.mpr ⟨wrapPoll, maps, hends, by omega, by rw [hno]; decide, by rw [hyes, hno]; decide⟩
  obtain ⟨poll, maps', hends', -, hcarries⟩ := hexact.mp hpasses
  obtain ⟨rfl, rfl⟩ := hends.unique hends'
  rw [hyes, hno] at hcarries
  exact absurd hcarries (by decide)

end Wrapped

end CkbVote
