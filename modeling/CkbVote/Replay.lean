import Mathlib.Algebra.Ring.Nat
import Mathlib.Data.List.Dedup
import Mathlib.Data.List.FinRange
import Mathlib.Data.List.Induction

/-!
# Replaying votes that are backed by spendable deposits

A transaction spends deposits (its inputs) and then casts votes.  A vote is
signed by a lock, is counted for the voter that lock stands for, carries a
ballot and names the deposits that back it.  A `Book` keeps two maps: the
standing ballot of each voter, and for each deposit the voter who named it
last.  Spending a deposit removes its owner's ballot and forgets the owner;
casting a vote overwrites the voter's ballot and the owners of the deposits it
names.

The book forgets, so what it holds at the end depends on the whole history.
`standing_replay` states that dependence on the transaction list alone:

* `ownerAt` — the owner of a deposit before a given transaction is the voter of
  the last earlier vote that named it and was not followed by a spend of it;
* `standing_replay` — a ballot stands exactly when it is the voter's last one
  and no later transaction spends a deposit the voter then owns.

The other results are consequences for histories in which votes naming one
deposit carry one lock (`OneLock`).
-/

namespace Replay

/-- A vote: who signed it, what it says, which deposits back it. -/
structure Vote (Lock Deposit Ballot : Type) where
  lock : Lock
  ballot : Ballot
  named : List Deposit
deriving DecidableEq, Repr

/-- A transaction: the deposits it spends, then the votes it casts. -/
structure Tx (Lock Deposit Ballot : Type) where
  inputs : List Deposit
  votes : List (Vote Lock Deposit Ballot)
deriving DecidableEq, Repr

/-- The two maps. -/
structure Book (Voter Deposit Ballot : Type) where
  standing : Voter → Option Ballot
  owner : Deposit → Option Voter

variable {Lock Voter Deposit Ballot : Type}

namespace Book

variable [DecidableEq Voter] [DecidableEq Deposit]

def empty : Book Voter Deposit Ballot := ⟨fun _ => none, fun _ => none⟩

/-- Spending a deposit removes its owner's ballot and the owner. -/
def spend (b : Book Voter Deposit Ballot) (x : Deposit) : Book Voter Deposit Ballot where
  standing v := if b.owner x = some v then none else b.standing v
  owner y := if y = x then none else b.owner y

variable (voterOf : Lock → Voter)

/-- Casting a vote overwrites the ballot and the owners. -/
def cast (b : Book Voter Deposit Ballot) (w : Vote Lock Deposit Ballot) :
    Book Voter Deposit Ballot where
  standing v := if voterOf w.lock = v then some w.ballot else b.standing v
  owner x := if x ∈ w.named then some (voterOf w.lock) else b.owner x

/-- Inputs first, then votes. -/
def apply (b : Book Voter Deposit Ballot) (tx : Tx Lock Deposit Ballot) :
    Book Voter Deposit Ballot :=
  tx.votes.foldl (cast voterOf) (tx.inputs.foldl spend b)

/-- The last of the votes that is the voter's. -/
def lastBy (votes : List (Vote Lock Deposit Ballot)) (v : Voter) :
    Option (Vote Lock Deposit Ballot) :=
  (votes.filter fun w => voterOf w.lock = v).getLast?

/-- The last of the votes that names the deposit. -/
def lastNaming (votes : List (Vote Lock Deposit Ballot)) (x : Deposit) :
    Option (Vote Lock Deposit Ballot) :=
  (votes.filter fun w => x ∈ w.named).getLast?

/-- After a transaction's inputs, a voter's ballot is gone if one of them was the
voter's. -/
theorem standing_foldl_spend (inputs : List Deposit) (b : Book Voter Deposit Ballot) (v : Voter) :
    (inputs.foldl spend b).standing v =
      if ∃ x ∈ inputs, b.owner x = some v then none else b.standing v := by
  induction inputs generalizing b with
  | nil => simp
  | cons x inputs ih =>
      simp only [List.foldl_cons, ih, spend]
      by_cases hx : b.owner x = some v
      · simp [hx]
      · have hrest : (∃ y ∈ inputs, ¬ y = x ∧ b.owner y = some v) ↔
            ∃ y ∈ inputs, b.owner y = some v := by
          constructor
          · intro h
            obtain ⟨y, hy, -, ho⟩ := h
            exact ⟨y, hy, ho⟩
          · intro h
            obtain ⟨y, hy, ho⟩ := h
            exact ⟨y, hy, by rintro rfl; exact hx ho, ho⟩
        simp [hx, hrest]

/-- Spent deposits have no owner any more. -/
theorem owner_foldl_spend (inputs : List Deposit) (b : Book Voter Deposit Ballot) (x : Deposit) :
    (inputs.foldl spend b).owner x = if x ∈ inputs then none else b.owner x := by
  induction inputs generalizing b with
  | nil => simp
  | cons y inputs ih =>
      simp only [List.foldl_cons, ih, spend, List.mem_cons]
      by_cases hy : x = y <;> by_cases hx : x ∈ inputs <;> simp [hy, hx]

/-- After a transaction's votes, the last one of a voter stands. -/
theorem standing_foldl_cast (votes : List (Vote Lock Deposit Ballot))
    (b : Book Voter Deposit Ballot) (v : Voter) :
    (votes.foldl (cast voterOf) b).standing v =
      ((lastBy voterOf votes v).map Vote.ballot).or (b.standing v) := by
  induction votes using List.reverseRecOn with
  | nil => simp [lastBy]
  | append_singleton votes w ih =>
      by_cases hw : voterOf w.lock = v
      · simp [lastBy, cast, hw]
      · simpa [lastBy, cast, hw] using ih

/-- After a transaction's votes, a deposit belongs to the last voter naming it. -/
theorem owner_foldl_cast (votes : List (Vote Lock Deposit Ballot))
    (b : Book Voter Deposit Ballot) (x : Deposit) :
    (votes.foldl (cast voterOf) b).owner x =
      ((lastNaming votes x).map fun w => voterOf w.lock).or (b.owner x) := by
  induction votes using List.reverseRecOn with
  | nil => simp [lastNaming]
  | append_singleton votes w ih =>
      by_cases hw : x ∈ w.named
      · simp [lastNaming, cast, hw]
      · simpa [lastNaming, cast, hw] using ih

/-- What one transaction does to a voter's ballot. -/
theorem standing_apply (b : Book Voter Deposit Ballot) (tx : Tx Lock Deposit Ballot) (v : Voter) :
    (b.apply voterOf tx).standing v = ((lastBy voterOf tx.votes v).map Vote.ballot).or
      (if ∃ x ∈ tx.inputs, b.owner x = some v then none else b.standing v) := by
  rw [apply, standing_foldl_cast, standing_foldl_spend]

/-- What one transaction does to a deposit's owner. -/
theorem owner_apply (b : Book Voter Deposit Ballot) (tx : Tx Lock Deposit Ballot) (x : Deposit) :
    (b.apply voterOf tx).owner x = ((lastNaming tx.votes x).map fun w => voterOf w.lock).or
      (if x ∈ tx.inputs then none else b.owner x) := by
  rw [apply, owner_foldl_cast, owner_foldl_spend]

end Book

/-! ## The history of a transaction list -/

section History

variable (voterOf : Lock → Voter)

/-- Every vote with the position of its transaction, in order. -/
def events (txs : List (Tx Lock Deposit Ballot)) : List (Nat × Vote Lock Deposit Ballot) :=
  txs.zipIdx.flatMap fun p => p.1.votes.map fun w => (p.2, w)

/-- The deposits transaction `k` spends. -/
def inputsAt (txs : List (Tx Lock Deposit Ballot)) (k : Nat) : List Deposit :=
  (txs[k]?.map Tx.inputs).getD []

/-- No transaction strictly between `i` and `t` spends the deposit. -/
def UnspentBetween (txs : List (Tx Lock Deposit Ballot)) (i t : Nat) (x : Deposit) : Prop :=
  ∀ k, k < t → i < k → x ∉ inputsAt txs k

instance [DecidableEq Deposit] (txs : List (Tx Lock Deposit Ballot)) (i t : Nat) (x : Deposit) :
    Decidable (UnspentBetween txs i t x) := by
  unfold UnspentBetween; infer_instance

/-- The votes before transaction `t` that name the deposit and are followed by
no spend of it before `t`. -/
def claimsAt [DecidableEq Deposit] (txs : List (Tx Lock Deposit Ballot)) (t : Nat) (x : Deposit) :
    List (Nat × Vote Lock Deposit Ballot) :=
  (events (txs.take t)).filter fun e => x ∈ e.2.named ∧ UnspentBetween txs e.1 t x

/-- The owner of a deposit at transaction `t`: the voter of the most recent
claim. -/
def ownerAt [DecidableEq Deposit] (txs : List (Tx Lock Deposit Ballot)) (t : Nat) (x : Deposit) :
    Option Voter :=
  (claimsAt txs t x).getLast?.map fun e => voterOf e.2.lock

/-- The voter's last vote and the position of its transaction. -/
def lastVote [DecidableEq Voter] (txs : List (Tx Lock Deposit Ballot)) (v : Voter) :
    Option (Nat × Vote Lock Deposit Ballot) :=
  ((events txs).filter fun e => voterOf e.2.lock = v).getLast?

/-- The book after a list of transactions. -/
def replay [DecidableEq Voter] [DecidableEq Deposit] (txs : List (Tx Lock Deposit Ballot)) :
    Book Voter Deposit Ballot :=
  txs.foldl (Book.apply voterOf) Book.empty

variable {voterOf} {txs : List (Tx Lock Deposit Ballot)} {tx : Tx Lock Deposit Ballot}

/-- A transaction at the end adds its votes as events. -/
theorem events_concat : events (txs ++ [tx]) =
    events txs ++ tx.votes.map fun w => (txs.length, w) := by
  simp [events, List.zipIdx_append]

/-- An event is a vote of the transaction at that position. -/
theorem mem_events {i : Nat} {w : Vote Lock Deposit Ballot} :
    (i, w) ∈ events txs ↔ ∃ tx, txs[i]? = some tx ∧ w ∈ tx.votes := by
  simp only [events, List.mem_flatMap, List.mem_map, Prod.mk.injEq]
  constructor
  · intro h
    obtain ⟨⟨tx, j⟩, hmem, w', hw', rfl, rfl⟩ := h
    exact ⟨tx, List.mem_zipIdx_iff_getElem?.mp hmem, hw'⟩
  · intro h
    obtain ⟨tx, hget, hw⟩ := h
    exact ⟨(tx, i), List.mem_zipIdx_iff_getElem?.mpr hget, w, hw, rfl, rfl⟩

theorem lt_length_of_mem_events {i : Nat} {w : Vote Lock Deposit Ballot}
    (h : (i, w) ∈ events txs) : i < txs.length := by
  obtain ⟨tx, hget, -⟩ := mem_events.mp h
  exact (List.getElem?_eq_some_iff.mp hget).1

/-- The events of a prefix are those before its end. -/
theorem mem_events_take {t i : Nat} {w : Vote Lock Deposit Ballot} :
    (i, w) ∈ events (txs.take t) ↔ i < t ∧ (i, w) ∈ events txs := by
  simp only [mem_events, List.getElem?_take]
  by_cases hi : i < t <;> simp [hi]

/-- A transaction at the end leaves earlier inputs alone. -/
theorem inputsAt_concat_lt (tx : Tx Lock Deposit Ballot) {k : Nat} (hk : k < txs.length) :
    inputsAt (txs ++ [tx]) k = inputsAt txs k := by
  simp [inputsAt, List.getElem?_append_left hk]

theorem inputsAt_concat_self : inputsAt (txs ++ [tx]) txs.length = tx.inputs := by
  simp [inputsAt]

theorem lt_length_of_mem_inputsAt {k : Nat} {x : Deposit} (h : x ∈ inputsAt txs k) :
    k < txs.length := by
  by_contra hk
  have hnone : txs[k]? = none := List.getElem?_eq_none (by omega)
  simp [inputsAt, hnone] at h

/-- A transaction at the end does not spend between earlier positions. -/
theorem unspentBetween_concat (tx : Tx Lock Deposit Ballot) {i t : Nat} {x : Deposit}
    (ht : t ≤ txs.length) :
    UnspentBetween (txs ++ [tx]) i t x ↔ UnspentBetween txs i t x := by
  constructor
  · intro h k hk hi
    rw [← inputsAt_concat_lt tx (by omega)]
    exact h k hk hi
  · intro h k hk hi
    rw [inputsAt_concat_lt tx (by omega)]
    exact h k hk hi

section Owner

variable [DecidableEq Deposit]

/-- A transaction at the end leaves earlier claims alone. -/
theorem claimsAt_concat (tx : Tx Lock Deposit Ballot) {t : Nat} {x : Deposit}
    (ht : t ≤ txs.length) :
    claimsAt (txs ++ [tx]) t x = claimsAt txs t x := by
  simp only [claimsAt, List.take_append_of_le_length ht, unspentBetween_concat tx ht]

/-- Before the transaction list has ended, a later transaction changes no owner. -/
theorem ownerAt_concat (tx : Tx Lock Deposit Ballot) {t : Nat} {x : Deposit} (ht : t ≤ txs.length) :
    ownerAt voterOf (txs ++ [tx]) t x = ownerAt voterOf txs t x := by
  rw [ownerAt, ownerAt, claimsAt_concat tx ht]

/-- One more transaction drops the claims it spends and adds those it casts. -/
theorem claimsAt_concat_end {x : Deposit} : claimsAt (txs ++ [tx]) (txs.length + 1) x =
    (if x ∈ tx.inputs then [] else claimsAt txs txs.length x) ++
      (tx.votes.filter fun w => x ∈ w.named).map fun w => (txs.length, w) := by
  have hfull : (txs ++ [tx]).take (txs.length + 1) = txs ++ [tx] :=
    List.take_of_length_le (by simp)
  have hspent : ∀ e ∈ events txs, x ∈ tx.inputs →
      ¬ UnspentBetween (txs ++ [tx]) e.1 (txs.length + 1) x := by
    intro e he hin hun
    have hlast := hun txs.length (by omega) (lt_length_of_mem_events he)
    rw [inputsAt_concat_self] at hlast
    exact hlast hin
  have hkept : ∀ e ∈ events txs, x ∉ tx.inputs →
      (UnspentBetween (txs ++ [tx]) e.1 (txs.length + 1) x ↔
        UnspentBetween txs e.1 txs.length x) := by
    intro e he hin
    rw [← unspentBetween_concat tx (Nat.le_refl _)]
    constructor
    · exact fun hun k hk => hun k (by omega)
    · intro hun k hk hik
      by_cases hkl : k = txs.length
      · rw [hkl, inputsAt_concat_self]; exact hin
      · exact hun k (by omega) hik
  rw [claimsAt, hfull, events_concat, List.filter_append, List.filter_map]
  congr 1
  · split_ifs with hin
    · exact List.filter_eq_nil_iff.mpr fun e he => by simp [hspent e he hin]
    · rw [claimsAt, List.take_of_length_le (Nat.le_refl _)]
      exact List.filter_congr fun e he => by simp [hkept e he hin]
  · congr 1
    refine List.filter_congr fun w _ => ?_
    have hun : UnspentBetween (txs ++ [tx]) txs.length (txs.length + 1) x :=
      fun k hk hik => by omega
    simp [hun]

end Owner

section Last

variable [DecidableEq Voter]

/-- A voter's last vote is in the transaction at the end, or was the last before.
-/
theorem lastVote_concat (v : Voter) : lastVote voterOf (txs ++ [tx]) v =
    ((Book.lastBy voterOf tx.votes v).map fun w => (txs.length, w)).or
      (lastVote voterOf txs v) := by
  simp [lastVote, Book.lastBy, events_concat, List.filter_map, List.getLast?_append,
    Function.comp_def]

/-- A last vote is an event of its voter. -/
theorem lastVote_spec {v : Voter} {t : Nat} {w : Vote Lock Deposit Ballot}
    (h : lastVote voterOf txs v = some (t, w)) :
    (t, w) ∈ events txs ∧ voterOf w.lock = v := by
  have hmem := List.mem_of_getLast? h
  simpa using hmem

/-- No vote of the voter stands in a later transaction than the last one. -/
theorem le_of_lastVote {v : Voter} {t s : Nat} {w u : Vote Lock Deposit Ballot}
    (h : lastVote voterOf txs v = some (t, w)) (hu : (s, u) ∈ events txs)
    (hv : voterOf u.lock = v) : s ≤ t := by
  induction txs using List.reverseRecOn with
  | nil => simp [events] at hu
  | append_singleton txs tx ih =>
      rw [lastVote_concat] at h
      rw [events_concat, List.mem_append] at hu
      cases hlast : Book.lastBy voterOf tx.votes v with
      | some w' =>
          simp only [hlast, Option.map_some, Option.some_or, Option.some.injEq,
            Prod.mk.injEq] at h
          rw [← List.mem_append, ← events_concat] at hu
          have hlt := lt_length_of_mem_events hu
          simp at hlt
          omega
      | none =>
          simp only [hlast, Option.map_none, Option.none_or] at h
          rcases hu with hu | hu
          · exact ih h hu
          · obtain ⟨u', hu', heq⟩ := List.mem_map.mp hu
            cases heq
            have hnil : tx.votes.filter (fun w => decide (voterOf w.lock = v)) = [] :=
              List.getLast?_eq_none_iff.mp hlast
            have hmem : u ∈ tx.votes.filter fun w => decide (voterOf w.lock = v) := by
              simp [hu', hv]
            simp [hnil] at hmem

end Last

/-! ## The book is determined by the history -/

variable [DecidableEq Voter] [DecidableEq Deposit]

/-- The owner map after the whole list is the owner at its end. -/
theorem owner_replay (x : Deposit) :
    (replay voterOf txs).owner x = ownerAt voterOf txs txs.length x := by
  induction txs using List.reverseRecOn with
  | nil => simp [replay, ownerAt, claimsAt, events, Book.empty]
  | append_singleton txs tx ih =>
      have hstep : replay voterOf (txs ++ [tx]) = (replay voterOf txs).apply voterOf tx := by
        simp [replay]
      rw [hstep, Book.owner_apply, ih, List.length_append, List.length_singleton]
      unfold ownerAt Book.lastNaming
      rw [claimsAt_concat_end, List.getLast?_append, List.getLast?_map]
      cases hlast : (tx.votes.filter fun w => decide (x ∈ w.named)).getLast? with
      | some w => simp
      | none => by_cases hin : x ∈ tx.inputs <;> simp [hin]

/-- **The two-map book, read off the history.**  A ballot stands after the
whole list exactly when it is the voter's last one and no later transaction
spends a deposit the voter owns at that transaction. -/
theorem standing_replay (v : Voter) (b : Ballot) :
    (replay voterOf txs).standing v = some b ↔
      ∃ t w, lastVote voterOf txs v = some (t, w) ∧ w.ballot = b ∧
        ∀ t', t < t' → ∀ x ∈ inputsAt txs t', ownerAt voterOf txs t' x ≠ some v := by
  induction txs using List.reverseRecOn with
  | nil => simp [replay, lastVote, events, Book.empty]
  | append_singleton txs tx ih =>
      have hstep : replay voterOf (txs ++ [tx]) = (replay voterOf txs).apply voterOf tx := by
        simp [replay]
      rw [hstep, Book.standing_apply, lastVote_concat]
      cases hlast : Book.lastBy voterOf tx.votes v with
      | some w =>
          simp only [Option.map_some, Option.some_or, Option.some.injEq, Prod.mk.injEq]
          constructor
          · intro hb
            refine ⟨txs.length, w, ⟨rfl, rfl⟩, hb, ?_⟩
            intro t' ht' x hx
            have hlt := lt_length_of_mem_inputsAt hx
            simp at hlt
            omega
          · intro h
            obtain ⟨t, w', ⟨rfl, rfl⟩, hb, -⟩ := h
            exact hb
      | none =>
          simp only [Option.map_none, Option.none_or]
          -- the new transaction is the only one whose spends are not yet covered
          have hspent : (∃ x ∈ tx.inputs, (replay voterOf txs).owner x = some v) ↔
              ∃ x ∈ inputsAt (txs ++ [tx]) txs.length,
                ownerAt voterOf (txs ++ [tx]) txs.length x = some v := by
            simp only [inputsAt_concat_self, owner_replay, ownerAt_concat tx (Nat.le_refl _)]
          by_cases hsp : ∃ x ∈ tx.inputs, (replay voterOf txs).owner x = some v
          · rw [if_pos hsp]
            simp only [reduceCtorEq, false_iff]
            intro h
            obtain ⟨t, w, hw, -, hno⟩ := h
            obtain ⟨x, hx, ho⟩ := hspent.mp hsp
            exact hno txs.length (lt_length_of_mem_events (lastVote_spec hw).1) x hx ho
          · rw [if_neg hsp, ih]
            refine exists_congr fun t => exists_congr fun w => and_congr_right fun hw =>
              and_congr_right fun _ => ?_
            have ht := lt_length_of_mem_events (lastVote_spec hw).1
            constructor
            · intro h t' ht' x hx
              have hlt := lt_length_of_mem_inputsAt hx
              by_cases hend : t' = txs.length
              · subst hend
                exact fun ho => hsp (hspent.mpr ⟨x, hx, ho⟩)
              · have hlt' : t' < txs.length := by simp at hlt; omega
                rw [inputsAt_concat_lt tx hlt'] at hx
                rw [ownerAt_concat tx (Nat.le_of_lt hlt')]
                exact h t' ht' x hx
            · intro h t' ht' x hx
              have hlt := lt_length_of_mem_inputsAt hx
              rw [← ownerAt_concat tx (Nat.le_of_lt hlt)]
              exact h t' ht' x (by rwa [inputsAt_concat_lt tx hlt])

/-! ## Votes naming one deposit carry one lock -/

/-- Any two votes that name one deposit carry one lock. -/
def OneLock (txs : List (Tx Lock Deposit Ballot)) : Prop :=
  ∀ e ∈ events txs, ∀ e' ∈ events txs, ∀ x ∈ e.2.named, x ∈ e'.2.named → e.2.lock = e'.2.lock

instance [DecidableEq Lock] (txs : List (Tx Lock Deposit Ballot)) : Decidable (OneLock txs) := by
  unfold OneLock; infer_instance

omit [DecidableEq Voter] in
/-- An owner has a claim. -/
theorem exists_claim_of_ownerAt {t : Nat} {x : Deposit} {v : Voter}
    (h : ownerAt voterOf txs t x = some v) :
    ∃ s u, (s, u) ∈ events txs ∧ s < t ∧ x ∈ u.named ∧ UnspentBetween txs s t x ∧
      voterOf u.lock = v := by
  obtain ⟨⟨s, u⟩, hlast, hv⟩ := Option.map_eq_some_iff.mp h
  have hmem := List.mem_of_getLast? hlast
  simp only [claimsAt, List.mem_filter, mem_events_take, decide_eq_true_eq] at hmem
  exact ⟨s, u, hmem.1.2, hmem.1.1, hmem.2.1, hmem.2.2, hv⟩

omit [DecidableEq Voter] in
/-- With one lock for each deposit, every claim determines the owner. -/
theorem ownerAt_of_claim (hone : OneLock txs) {s t : Nat} {u : Vote Lock Deposit Ballot}
    {x : Deposit} (hu : (s, u) ∈ events txs) (hst : s < t) (hx : x ∈ u.named)
    (hun : UnspentBetween txs s t x) : ownerAt voterOf txs t x = some (voterOf u.lock) := by
  have hclaim : (s, u) ∈ claimsAt txs t x := by
    simp only [claimsAt, List.mem_filter, mem_events_take, decide_eq_true_eq]
    exact ⟨⟨hst, hu⟩, hx, hun⟩
  obtain ⟨⟨s', u'⟩, he⟩ := Option.isSome_iff_exists.mp
    (List.getLast?_isSome.mpr (List.ne_nil_of_mem hclaim))
  have hmem := List.mem_of_getLast? he
  simp only [claimsAt, List.mem_filter, mem_events_take, decide_eq_true_eq] at hmem
  have hlock : u'.lock = u.lock := hone _ hmem.1.2 (s, u) hu x hmem.2.1 hx
  simp [ownerAt, he, hlock]

variable (voterOf) in
/-- After transaction `t` a deposit is spent that the voter had named by then
and that no transaction up to `t` had spent again. -/
def Withdrawn (txs : List (Tx Lock Deposit Ballot)) (v : Voter) (t : Nat) : Prop :=
  ∃ s u, (s, u) ∈ events txs ∧ s ≤ t ∧ voterOf u.lock = v ∧
    ∃ x ∈ u.named, UnspentBetween txs s (t + 1) x ∧ ∃ t', t < t' ∧ x ∈ inputsAt txs t'

/-- A last vote stands exactly when the voter has not withdrawn. -/
theorem standing_iff_not_withdrawn (hone : OneLock txs) {v : Voter} {t : Nat}
    {w : Vote Lock Deposit Ballot} (hw : lastVote voterOf txs v = some (t, w)) :
    (replay voterOf txs).standing v = some w.ballot ↔ ¬ Withdrawn voterOf txs v t := by
  rw [standing_replay]
  constructor
  · rintro ⟨t₁, w₁, hw₁, -, hkeep⟩ ⟨s, u, hu, hst, hv, x, hx, hun, hspent⟩
    obtain ⟨rfl, rfl⟩ : t₁ = t ∧ w₁ = w := by simpa [hw₁] using hw
    -- the first spend after the last vote meets an unbroken claim
    have hfirst := Nat.find_spec hspent
    have hmin := fun k hk => Nat.find_min hspent (m := k) hk
    have howner : ownerAt voterOf txs (Nat.find hspent) x = some (voterOf u.lock) := by
      refine ownerAt_of_claim hone hu (by omega) hx fun k hk hsk hxk => ?_
      by_cases hkt : k < t₁ + 1
      · exact hun k hkt hsk hxk
      · exact hmin k hk ⟨by omega, hxk⟩
    exact hkeep _ hfirst.1 x hfirst.2 (hv ▸ howner)
  · intro hno
    refine ⟨t, w, hw, rfl, fun t' ht' x hx howner => hno ?_⟩
    obtain ⟨s, u, hu, hst, hxu, hun, hv⟩ := exists_claim_of_ownerAt howner
    exact ⟨s, u, hu, le_of_lastVote hw hu hv, hv, x, hxu, fun k hk => hun k (by omega),
      t', ht', hx⟩

/-- A withdrawn vote does not stand. -/
theorem standing_eq_none (hone : OneLock txs) {v : Voter} {t : Nat}
    {w : Vote Lock Deposit Ballot} (hw : lastVote voterOf txs v = some (t, w))
    (hwithdrawn : Withdrawn voterOf txs v t) : (replay voterOf txs).standing v = none := by
  by_contra hne
  obtain ⟨b, hb⟩ := Option.ne_none_iff_exists'.mp hne
  obtain ⟨t₁, w₁, hw₁, rfl, hkeep⟩ := (standing_replay v b).mp hb
  obtain ⟨rfl, rfl⟩ : t₁ = t ∧ w₁ = w := by simpa [hw₁] using hw
  exact (standing_iff_not_withdrawn hone hw).mp hb hwithdrawn

/-- A standing vote's deposits are not spent after its own transaction. -/
theorem unspent_after_of_standing (hone : OneLock txs) {v : Voter} {t : Nat}
    {w : Vote Lock Deposit Ballot} (hw : lastVote voterOf txs v = some (t, w))
    (hstand : (replay voterOf txs).standing v ≠ none) {x : Deposit} (hx : x ∈ w.named)
    {t' : Nat} (ht' : t < t') : x ∉ inputsAt txs t' := by
  intro hspent
  obtain ⟨hmem, hv⟩ := lastVote_spec hw
  exact hstand (standing_eq_none hone hw ⟨t, w, hmem, Nat.le_refl t, hv, x, hx,
    fun k hk hik => by omega, t', ht', hspent⟩)

/-- A ballot that is present is backed by unspent deposits, unless its own
transaction spends one of them and the voter has not withdrawn later. -/
theorem unspent_of_standing_iff (hone : OneLock txs) {v : Voter} {t : Nat}
    {w : Vote Lock Deposit Ballot} (hw : lastVote voterOf txs v = some (t, w)) :
    ((replay voterOf txs).standing v ≠ none → ∀ x ∈ w.named, ∀ t', t ≤ t' → x ∉ inputsAt txs t') ↔
      ((∃ x ∈ w.named, x ∈ inputsAt txs t) → Withdrawn voterOf txs v t) := by
  constructor
  · intro hsafe h
    obtain ⟨x, hx, hspent⟩ := h
    by_contra hno
    have hstand := (standing_iff_not_withdrawn hone hw).mpr hno
    exact hsafe (by simp [hstand]) x hx t (Nat.le_refl t) hspent
  · intro hown hstand x hx t' ht' hspent
    rcases Nat.eq_or_lt_of_le ht' with rfl | hlt
    · exact hstand (standing_eq_none hone hw (hown ⟨x, hx, hspent⟩))
    · exact unspent_after_of_standing hone hw hstand hx hlt hspent

/-- Every deposit is spent by at most one transaction. -/
def SpentOnce (txs : List (Tx Lock Deposit Ballot)) : Prop :=
  ∀ i j x, x ∈ inputsAt txs i → x ∈ inputsAt txs j → i = j

omit [DecidableEq Deposit] in
/-- Deposits are spent once exactly when no two positions share an input. -/
theorem spentOnce_iff : SpentOnce txs ↔ ∀ i < txs.length, ∀ j < txs.length,
    ∀ x ∈ inputsAt txs i, x ∈ inputsAt txs j → i = j := by
  constructor
  · exact fun h i _ j _ x hi hj => h i j x hi hj
  · exact fun h i j x hi hj => h i (lt_length_of_mem_inputsAt hi) j (lt_length_of_mem_inputsAt hj)
      x hi hj

instance (txs : List (Tx Lock Deposit Ballot)) : Decidable (SpentOnce txs) :=
  decidable_of_iff _ spentOnce_iff.symm

omit [DecidableEq Deposit] in
/-- Without repeated spends, withdrawing is spending any deposit ever named. -/
theorem withdrawn_iff (honce : SpentOnce txs) {v : Voter} {t : Nat}
    {w : Vote Lock Deposit Ballot} (hw : lastVote voterOf txs v = some (t, w)) :
    Withdrawn voterOf txs v t ↔ ∃ e ∈ events txs, voterOf e.2.lock = v ∧
      ∃ x ∈ e.2.named, ∃ t', t < t' ∧ x ∈ inputsAt txs t' := by
  constructor
  · intro h
    obtain ⟨s, u, hu, -, hv, x, hx, -, t', ht', hspent⟩ := h
    exact ⟨(s, u), hu, hv, x, hx, t', ht', hspent⟩
  · intro h
    obtain ⟨⟨s, u⟩, hu, hv, x, hx, t', ht', hspent⟩ := h
    refine ⟨s, u, hu, le_of_lastVote hw hu hv, hv, x, hx, fun k hk _ hxk => ?_, t', ht', hspent⟩
    have := honce k t' x hxk hspent
    omega

/-- Without repeated spends, the last ballot stands exactly when no deposit of
any vote of the voter is spent after the last one. -/
theorem standing_iff_all_unspent (hone : OneLock txs) (honce : SpentOnce txs) {v : Voter} {t : Nat}
    {w : Vote Lock Deposit Ballot} (hw : lastVote voterOf txs v = some (t, w)) :
    (replay voterOf txs).standing v = some w.ballot ↔ ∀ e ∈ events txs, voterOf e.2.lock = v →
      ∀ x ∈ e.2.named, ∀ t', t < t' → x ∉ inputsAt txs t' := by
  rw [standing_iff_not_withdrawn hone hw, withdrawn_iff honce hw]
  constructor
  · exact fun hno e he hv x hx t' ht' hspent => hno ⟨e, he, hv, x, hx, t', ht', hspent⟩
  · intro hall h
    obtain ⟨e, he, hv, x, hx, t', ht', hspent⟩ := h
    exact hall e he hv x hx t' ht' hspent

/-! ## Reordering transactions of different voters -/

variable (voterOf) in
/-- The transaction casts a vote of the voter or spends a deposit that some
vote of the voter in the list names. -/
def Touches (txs : List (Tx Lock Deposit Ballot)) (v : Voter) (tx : Tx Lock Deposit Ballot) :
    Prop :=
  (∃ w ∈ tx.votes, voterOf w.lock = v) ∨
    ∃ x ∈ tx.inputs, ∃ tx' ∈ txs, ∃ w ∈ tx'.votes, voterOf w.lock = v ∧ x ∈ w.named

instance (txs : List (Tx Lock Deposit Ballot)) (v : Voter) (tx : Tx Lock Deposit Ballot) :
    Decidable (Touches voterOf txs v tx) := by
  unfold Touches; infer_instance

omit [DecidableEq Voter] [DecidableEq Deposit] in
/-- Only voters of the list are touched. -/
theorem exists_vote_of_touches {v : Voter} (htx : tx ∈ txs) (h : Touches voterOf txs v tx) :
    ∃ e ∈ events txs, voterOf e.2.lock = v := by
  have hevent : ∀ tx' ∈ txs, ∀ w ∈ tx'.votes, ∃ e ∈ events txs, e.2 = w := by
    intro tx' htx' w hw
    obtain ⟨i, hi⟩ := List.mem_iff_getElem?.mp htx'
    exact ⟨(i, w), mem_events.mpr ⟨tx', hi, hw⟩, rfl⟩
  rcases h with ⟨w, hw, hv⟩ | ⟨x, -, tx', htx', w, hw, hv, -⟩
  · obtain ⟨e, he, rfl⟩ := hevent tx htx w hw
    exact ⟨e, he, hv⟩
  · obtain ⟨e, he, rfl⟩ := hevent tx' htx' w hw
    exact ⟨e, he, hv⟩

variable (voterOf) in
/-- The second list is a permutation of the first in which every two
transactions that touch one voter keep their order. -/
def Reordering (txs txs' : List (Tx Lock Deposit Ballot)) : Prop :=
  ∃ σ : Fin txs.length ≃ Fin txs'.length, (∀ i, txs'.get (σ i) = txs.get i) ∧
    ∀ (v : Voter) (i j : Fin txs.length), i < j → Touches voterOf txs v (txs.get i) →
      Touches voterOf txs v (txs.get j) → σ i < σ j

/-- What a voter's part of two books has in common: the ballot and the
deposits the voter owns, all of them among `named`. -/
structure SameFor (v : Voter) (named : Deposit → Prop) (b b' : Book Voter Deposit Ballot) :
    Prop where
  standing : b.standing v = b'.standing v
  owner : ∀ x, b.owner x = some v ↔ b'.owner x = some v
  owned : ∀ x, b.owner x = some v → named x

namespace SameFor

variable {v : Voter} {named : Deposit → Prop} {b b' : Book Voter Deposit Ballot}

/-- A transaction that touches the voter does the same to both parts. -/
theorem apply (h : SameFor v named b b')
    (hmine : ∀ w ∈ tx.votes, voterOf w.lock = v → ∀ x ∈ w.named, named x) :
    SameFor v named (b.apply voterOf tx) (b'.apply voterOf tx) := by
  refine ⟨?_, ?_, ?_⟩
  · simp only [Book.standing_apply, h.owner, h.standing]
  · intro x
    simp only [Book.owner_apply]
    cases hlast : Book.lastNaming tx.votes x with
    | some w => simp
    | none => by_cases hin : x ∈ tx.inputs <;> simp [hin, h.owner]
  · intro x
    rw [Book.owner_apply]
    cases hlast : Book.lastNaming tx.votes x with
    | some w =>
        have hmem := List.mem_of_getLast? hlast
        simp only [List.mem_filter, decide_eq_true_eq] at hmem
        simpa using fun hv => hmine w hmem.1 hv x hmem.2
    | none =>
        by_cases hin : x ∈ tx.inputs
        · simp [hin]
        · simpa [hin] using h.owned x

/-- A transaction that does not touch the voter leaves the part alone. -/
theorem skip (h : SameFor v named b b') (hnovote : ∀ w ∈ tx.votes, voterOf w.lock ≠ v)
    (hnospend : ∀ x ∈ tx.inputs, ¬ named x)
    (hothers : ∀ w ∈ tx.votes, ∀ x ∈ w.named, ¬ named x) :
    SameFor v named (b.apply voterOf tx) b' := by
  have hby : Book.lastBy voterOf tx.votes v = none := by
    rw [Book.lastBy, List.getLast?_eq_none_iff, List.filter_eq_nil_iff]
    exact fun w hw => by simp [hnovote w hw]
  have hunspent : ¬ ∃ x ∈ tx.inputs, b.owner x = some v := by
    intro h
    obtain ⟨x, hx, ho⟩ := h
    exact hnospend x hx (h.owned x ho)
  have howner : ∀ x, (b.apply voterOf tx).owner x = some v ↔ b.owner x = some v := by
    intro x
    rw [Book.owner_apply]
    cases hlast : Book.lastNaming tx.votes x with
    | some w =>
        have hmem := List.mem_of_getLast? hlast
        simp only [List.mem_filter, decide_eq_true_eq] at hmem
        have hforeign : b.owner x ≠ some v := fun ho => hothers w hmem.1 x hmem.2 (h.owned x ho)
        simp [hnovote w hmem.1, hforeign]
    | none =>
        by_cases hin : x ∈ tx.inputs
        · have hforeign : b.owner x ≠ some v := fun ho => hnospend x hin (h.owned x ho)
          simp [hin, hforeign]
        · simp [hin]
  refine ⟨?_, fun x => (howner x).trans (h.owner x), fun x hx => h.owned x ((howner x).mp hx)⟩
  rw [Book.standing_apply, hby, if_neg hunspent, ← h.standing]
  rfl

end SameFor

/-- A voter's part of the book is made by the transactions that touch the
voter alone. -/
theorem sameFor_filter (hone : OneLock txs) (v : Voter) :
    SameFor v (fun x => ∃ e ∈ events txs, voterOf e.2.lock = v ∧ x ∈ e.2.named)
      (replay voterOf txs) (replay voterOf (txs.filter fun tx => Touches voterOf txs v tx)) := by
  suffices h : ∀ part : List (Tx Lock Deposit Ballot), (∀ tx ∈ part, tx ∈ txs) →
      SameFor v (fun x => ∃ e ∈ events txs, voterOf e.2.lock = v ∧ x ∈ e.2.named)
        (replay voterOf part) (replay voterOf (part.filter fun tx => Touches voterOf txs v tx)) from
    h txs fun _ h => h
  intro part
  induction part using List.reverseRecOn with
  | nil => intro _; exact ⟨rfl, fun _ => Iff.rfl, fun x hx => by simp [replay, Book.empty] at hx⟩
  | append_singleton part tx ih =>
      intro hpart
      have hprev := ih fun tx' h => hpart tx' (by simp [h])
      have hmem : tx ∈ txs := hpart tx (by simp)
      obtain ⟨i, hi⟩ := List.mem_iff_getElem?.mp hmem
      have hevent : ∀ w ∈ tx.votes, (i, w) ∈ events txs := fun w hw => mem_events.mpr ⟨tx, hi, hw⟩
      have hstep : ∀ l : List (Tx Lock Deposit Ballot),
          replay voterOf (l ++ [tx]) = (replay voterOf l).apply voterOf tx := by simp [replay]
      by_cases ht : Touches voterOf txs v tx
      · rw [List.filter_append, List.filter_singleton, decide_eq_true ht, hstep]
        simp only [Bool.cond_true, hstep]
        exact hprev.apply fun w hw hv x hx => ⟨(i, w), hevent w hw, hv, hx⟩
      · rw [List.filter_append, List.filter_singleton, decide_eq_false ht, hstep]
        simp only [Bool.cond_false, List.append_nil]
        have hnovote : ∀ w ∈ tx.votes, voterOf w.lock ≠ v := fun w hw hv => ht (Or.inl ⟨w, hw, hv⟩)
        refine hprev.skip hnovote ?_ ?_
        · intro x hx h
          obtain ⟨⟨j, u⟩, hu, hv, hxu⟩ := h
          obtain ⟨tx', hget, hu'⟩ := mem_events.mp hu
          exact ht (Or.inr ⟨x, hx, tx', List.mem_of_getElem? hget, u, hu', hv, hxu⟩)
        · intro w hw x hx h
          obtain ⟨e, he, hv, hxe⟩ := h
          exact hnovote w hw (hone (i, w) (hevent w hw) e he x hx hxe ▸ hv)

/-- Reading two lists through an index bijection that keeps the order of the
selected entries selects the same list. -/
theorem filter_eq_of_reindex {α : Type} {l l' : List α} (p : α → Bool)
    (σ : Fin l.length ≃ Fin l'.length) (hσ : ∀ i, l'.get (σ i) = l.get i)
    (hord : ∀ i j : Fin l.length, i < j → p (l.get i) → p (l.get j) → σ i < σ j) :
    l.filter p = l'.filter p := by
  have hsplit : ∀ l : List α, l.filter p =
      ((List.finRange l.length).filter fun i => p (l.get i)).map l.get := by
    intro l
    conv => lhs; rw [← List.map_get_finRange l, List.filter_map]
    rfl
  have hindices : ((List.finRange l.length).filter fun i => p (l.get i)).map σ =
      (List.finRange l'.length).filter fun i => p (l'.get i) := by
    have hsorted : List.Pairwise (· < ·)
        (((List.finRange l.length).filter fun i => p (l.get i)).map σ) := by
      rw [List.pairwise_map]
      refine ((List.pairwise_lt_finRange _).filter _).imp_of_mem ?_
      intro i j hi hj hij
      exact hord i j hij (List.mem_filter.mp hi).2 (List.mem_filter.mp hj).2
    have hsorted' := (List.pairwise_lt_finRange l'.length).filter fun i => p (l'.get i)
    refine List.Perm.eq_of_pairwise (fun a b _ _ hab hba => absurd hab (by omega))
      hsorted hsorted' ?_
    refine (List.perm_ext_iff_of_nodup (hsorted.imp fun h => Fin.ne_of_lt h)
      (hsorted'.imp fun h => Fin.ne_of_lt h)).mpr fun k => ?_
    simp only [List.mem_map, List.mem_filter, List.mem_finRange, true_and]
    constructor
    · intro h
      obtain ⟨i, hi, rfl⟩ := h
      rwa [hσ]
    · intro hk
      refine ⟨σ.symm k, ?_, σ.apply_symm_apply k⟩
      rwa [← hσ, σ.apply_symm_apply]
  rw [hsplit l, hsplit l', ← hindices, List.map_map]
  exact List.map_congr_left fun i _ => (hσ i).symm

/-- **Order independence.**  Reordering transactions that touch no common
voter changes no ballot. -/
theorem standing_reordering {txs' : List (Tx Lock Deposit Ballot)} (hone : OneLock txs)
    (h : Reordering voterOf txs txs') (v : Voter) :
    (replay voterOf txs).standing v = (replay voterOf txs').standing v := by
  obtain ⟨σ, hσ, hord⟩ := h
  have hmem : ∀ tx, tx ∈ txs ↔ tx ∈ txs' := by
    intro tx
    constructor
    · intro htx
      obtain ⟨i, rfl⟩ := List.mem_iff_get.mp htx
      exact hσ i ▸ List.get_mem txs' (σ i)
    · intro htx
      obtain ⟨j, rfl⟩ := List.mem_iff_get.mp htx
      have hback := hσ (σ.symm j)
      rw [σ.apply_symm_apply] at hback
      exact hback ▸ List.get_mem txs (σ.symm j)
  have hone' : OneLock txs' := by
    intro e he e' he' x hx hx'
    obtain ⟨tx, hget, hw⟩ := mem_events.mp he
    obtain ⟨tx', hget', hw'⟩ := mem_events.mp he'
    obtain ⟨i, hi⟩ := List.mem_iff_getElem?.mp ((hmem tx).mpr (List.mem_of_getElem? hget))
    obtain ⟨j, hj⟩ := List.mem_iff_getElem?.mp ((hmem tx').mpr (List.mem_of_getElem? hget'))
    exact hone (i, e.2) (mem_events.mpr ⟨tx, hi, hw⟩) (j, e'.2) (mem_events.mpr ⟨tx', hj, hw'⟩)
      x hx hx'
  have htouch : ∀ tx, Touches voterOf txs v tx ↔ Touches voterOf txs' v tx := by
    intro tx
    simp only [Touches, hmem]
  have hfilter : (txs.filter fun tx => decide (Touches voterOf txs v tx)) =
      txs'.filter fun tx => decide (Touches voterOf txs' v tx) := by
    simp only [← htouch]
    refine filter_eq_of_reindex _ σ hσ fun i j hij hi hj => hord v i j hij ?_ ?_
    · simpa using hi
    · simpa using hj
  rw [(sameFor_filter hone v).standing, (sameFor_filter hone' v).standing, hfilter]

/-! ## Totals -/

variable (voterOf) in
/-- Everyone who cast a vote. -/
def voters (txs : List (Tx Lock Deposit Ballot)) : List Voter :=
  ((events txs).map fun e => voterOf e.2.lock).dedup

variable (voterOf) in
/-- The exact sum of a weight over the ballots that stand. -/
def total (weight : Ballot → Nat) (txs : List (Tx Lock Deposit Ballot)) : Nat :=
  ((voters voterOf txs).map fun v => ((replay voterOf txs).standing v).elim 0 weight).sum

/-- Only voters have a standing ballot. -/
theorem mem_voters_of_standing {v : Voter} (h : (replay voterOf txs).standing v ≠ none) :
    v ∈ voters voterOf txs := by
  obtain ⟨b, hb⟩ := Option.ne_none_iff_exists'.mp h
  obtain ⟨t, w, hlast, -, -⟩ := (standing_replay v b).mp hb
  obtain ⟨hmem, hvoter⟩ := lastVote_spec hlast
  rw [voters, List.mem_dedup]
  exact List.mem_map.mpr ⟨(t, w), hmem, hvoter⟩

end History

end Replay
