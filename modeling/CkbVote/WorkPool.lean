import Mathlib.Algebra.BigOperators.Fin
import Mathlib.Algebra.Order.BigOperators.Group.Finset
import Mathlib.Data.List.FinRange
import Mathlib.Data.List.Perm.Basic
import Mathlib.Logic.Function.Basic

/-!
# Workers on a shared counter

Each worker takes the next index off a counter, asks for the item at that index,
writes the answer into the slot of the index and starts over; it stops at the
first index that is not below the count.  Workers take turns in any order, and
answers come in any order.

`Steps` are the runs of a machine whose turns have events, with the rules for
invariants, for ranks, and for runs that can be completed.

`Pool.Inv` says who is responsible for what: a slot below the count is open
exactly when its index has not been taken or one worker waits for it.  From it:

* `Pool.Inv.filled` — when every worker has stopped, every slot is filled;
* `Pool.asked_range` — the indices that are asked for are the first ones, each
  of them once;
* `Pool.Inv.trace` — no index is answered twice, and none is answered whose slot
  was filled before;
* `Pool.Step.rank` — every turn uses up one of finitely many that are left, so
  every run ends.
-/

namespace WorkPool

/-! ## Runs -/

section Runs

variable {State Event : Type}

/-- Turns one after the other, with their number and their events. -/
inductive Steps (step : State → List Event → State → Prop) (s : State) :
    Nat → List Event → State → Prop
  | refl : Steps step s 0 [] s
  | tail {t u : State} {n : Nat} {es fs : List Event} (h : Steps step s n es t)
      (hstep : step t fs u) : Steps step s (n + 1) (es ++ fs) u

variable {step : State → List Event → State → Prop} {s t u : State} {m n : Nat}
  {es fs : List Event}

/-- One turn is a run. -/
theorem Steps.single (h : step s es t) : Steps step s 1 es t := Steps.tail .refl h

/-- Runs follow each other. -/
theorem Steps.trans (h : Steps step s n es t) (h' : Steps step t m fs u) :
    Steps step s (n + m) (es ++ fs) u := by
  induction h' with
  | refl => rwa [Nat.add_zero, List.append_nil]
  | tail _ hstep ih =>
      rw [← List.append_assoc]
      exact ih.tail hstep

/-- What holds at the start, of no events, and is kept by every turn, holds after
every run, of the events of the run. -/
theorem Steps.invariant {P : List Event → State → Prop}
    (hkeep : ∀ es t fs u, P es t → step t fs u → P (es ++ fs) u) (hstart : P [] s)
    (h : Steps step s n es t) : P es t := by
  induction h with
  | refl => exact hstart
  | tail _ hstep ih => exact hkeep _ _ _ _ ih hstep

/-- A rank that every turn lowers bounds the number of turns. -/
theorem Steps.rank_le {r : State → Nat} (hlower : ∀ t fs u, step t fs u → r u < r t)
    (h : Steps step s n es t) : r t + n ≤ r s := by
  induction h with
  | refl => exact Nat.le_refl _
  | tail _ hstep ih =>
      have := hlower _ _ _ hstep
      omega

/-- **Every run can be completed** when some turn is left before the end, by
induction on the rank. -/
theorem Steps.exists_end {r : State → Nat} {P Q : State → Prop}
    (hlower : ∀ t fs u, step t fs u → r u < r t)
    (hnext : ∀ t, P t → Q t ∨ ∃ fs u, step t fs u ∧ P u) (hs : P s) :
    ∃ n es t, Steps step s n es t ∧ Q t := by
  induction hrank : r s using Nat.strong_induction_on generalizing s with
  | _ k ih =>
      rcases hnext s hs with hend | ⟨fs, u, hstep, hu⟩
      · exact ⟨0, [], s, .refl, hend⟩
      · obtain ⟨n, es, t, hrest, hend⟩ := ih _ (hrank ▸ hlower _ _ _ hstep) hu rfl
        exact ⟨1 + n, fs ++ es, t, (Steps.single hstep).trans hrest, hend⟩

end Runs

/-! ## Workers, counter and slots -/

inductive Worker
  | ready
  | waiting (index : Nat)
  | stopped
deriving DecidableEq, Repr

/-- A worker asks for the item at an index, or is answered. -/
inductive Event
  | ask (index : Nat)
  | answer (index : Nat)
deriving DecidableEq, Repr

/-- The indices asked for, in order. -/
def asked (es : List Event) : List Nat :=
  es.filterMap fun
    | .ask i => some i
    | .answer _ => none

/-- The indices answered, in order. -/
def answered (es : List Event) : List Nat :=
  es.filterMap fun
    | .ask _ => none
    | .answer i => some i

@[simp] theorem asked_append (es fs : List Event) : asked (es ++ fs) = asked es ++ asked fs :=
  List.filterMap_append

@[simp] theorem answered_append (es fs : List Event) :
    answered (es ++ fs) = answered es ++ answered fs :=
  List.filterMap_append

/-- The counter, the workers and the slots. -/
structure Pool (W α : Type) where
  next : Nat
  worker : W → Worker
  slot : Nat → Option α

namespace Pool

variable {W α : Type} [DecidableEq W]

/-- A fresh counter, and nothing answered. -/
def start (W α : Type) : Pool W α := ⟨0, fun _ => .ready, fun _ => none⟩

/-- The worker takes the next index, or stops. -/
def take (count : Nat) (p : Pool W α) (w : W) : Pool W α where
  next := p.next + 1
  worker := Function.update p.worker w (if p.next < count then .waiting p.next else .stopped)
  slot := p.slot

/-- What a worker asks for that takes an index. -/
def asks (count next : Nat) : List Event := if next < count then [.ask next] else []

/-- The worker writes what it has been waiting for. -/
def answer (p : Pool W α) (w : W) (i : Nat) (a : α) : Pool W α where
  next := p.next
  worker := Function.update p.worker w .ready
  slot := Function.update p.slot i (some a)

/-- A turn of some worker, with its event. -/
inductive Step (count : Nat) (answers : Nat → α → Prop) (p : Pool W α) :
    List Event → Pool W α → Prop
  | take (w : W) (hready : p.worker w = .ready) :
      Step count answers p (asks count p.next) (p.take count w)
  | answer (w : W) (i : Nat) (a : α) (hwaits : p.worker w = .waiting i)
      (ha : answers i a) : Step count answers p [.answer i] (p.answer w i a)

variable {count : Nat} {answers : Nat → α → Prop} {p q r : Pool W α} {w w' : W}
  {i j m n : Nat} {a : α} {es fs : List Event}

@[simp] theorem answered_asks (count next : Nat) : answered (asks count next) = [] := by
  unfold asks
  split <;> rfl

/-- The requests so far and those of a worker that takes an index. -/
theorem range_asks (count next : Nat) :
    List.range (min next count) ++ asked (asks count next) = List.range (min (next + 1) count) := by
  unfold asks
  split_ifs with hlt
  · rw [Nat.min_eq_left hlt.le, Nat.min_eq_left hlt, List.range_succ]
    rfl
  · rw [Nat.min_eq_right (Nat.not_lt.mp hlt), Nat.min_eq_right (by omega)]
    exact List.append_nil _

/-! ## Who is responsible for an index -/

structure Inv (count : Nat) (answers : Nat → α → Prop) (p : Pool W α) : Prop where
  open_iff : ∀ i < count, p.slot i = none ↔ p.next ≤ i ∨ ∃ w, p.worker w = .waiting i
  waiting_lt : ∀ w i, p.worker w = .waiting i → i < p.next ∧ i < count
  waiting_one : ∀ w w' i, p.worker w = .waiting i → p.worker w' = .waiting i → w = w'
  written : ∀ i a, p.slot i = some a → i < count ∧ answers i a
  stopped : ∀ w, p.worker w = .stopped → count ≤ p.next

omit [DecidableEq W] in
theorem inv_start : Inv count answers (start W α) where
  open_iff := by simp [start]
  waiting_lt := by simp [start]
  waiting_one := by simp [start]
  written := by simp [start]
  stopped := by simp [start]

/-- What a worker is doing after some worker has taken an index. -/
theorem worker_take : (p.take count w).worker w' =
    if w' = w then (if p.next < count then .waiting p.next else .stopped) else p.worker w' := by
  by_cases hw : w' = w
  · subst hw
    simp [take]
  · simp [take, hw]

/-- Workers that are ready take indices one after the other. -/
theorem steps_takes (workers : List W) (hnodup : workers.Nodup)
    (hready : ∀ w ∈ workers, p.worker w = .ready) :
    Steps (Step count answers) p workers.length
      ((List.range workers.length).flatMap fun k => asks count (p.next + k))
      (workers.foldl (Pool.take count) p) := by
  induction workers generalizing p with
  | nil => exact .refl
  | cons w workers ih =>
      obtain ⟨hw, hnodup⟩ := List.nodup_cons.mp hnodup
      have hrest : ∀ w' ∈ workers, (p.take count w).worker w' = .ready := by
        intro w' hw'
        rw [worker_take, if_neg (ne_of_mem_of_not_mem hw' hw)]
        exact hready w' (List.mem_cons_of_mem w hw')
      have hfirst : Step count answers p (asks count p.next) (p.take count w) :=
        .take w (hready w List.mem_cons_self)
      have hevents : ((List.range (w :: workers).length).flatMap fun k => asks count (p.next + k)) =
          asks count p.next ++ (List.range workers.length).flatMap fun k =>
            asks count ((p.take count w).next + k) := by
        rw [List.length_cons, List.range_succ_eq_map, List.flatMap_cons, List.flatMap_map]
        refine congrArg _ (congrArg (List.flatMap · _) (funext fun k => ?_))
        show asks count (p.next + (k + 1)) = asks count (p.next + 1 + k)
        rw [Nat.add_assoc, Nat.add_comm 1 k]
      rw [hevents, List.length_cons, Nat.add_comm]
      exact (Steps.single hfirst).trans (ih hnodup hrest)

/-- A worker that has taken an index is not ready. -/
theorem not_ready_takes (workers : List W) (h : w ∈ workers ∨ p.worker w ≠ .ready) :
    (workers.foldl (Pool.take count) p).worker w ≠ .ready := by
  induction workers generalizing p with
  | nil => simpa using h
  | cons w' workers ih =>
      refine ih ?_
      by_cases hw : w = w'
      · right
        rw [worker_take, if_pos hw]
        split_ifs <;> simp
      · rw [worker_take, if_neg hw]
        exact h.imp_left fun hmem => (List.mem_cons.mp hmem).resolve_left hw

theorem worker_answer : (p.answer w i a).worker w' = if w' = w then .ready else p.worker w' := by
  by_cases hw : w' = w
  · subst hw
    simp [answer]
  · simp [answer, hw]

theorem slot_answer : (p.answer w i a).slot j = if j = i then some a else p.slot j := by
  by_cases hj : j = i
  · subst hj
    simp [answer]
  · simp [answer, hj]

/-- A worker that takes an index is the only one to wait for it. -/
theorem waiting_take (hready : p.worker w = .ready) : (p.take count w).worker w' = .waiting i ↔
    (w' = w ∧ i = p.next ∧ p.next < count) ∨ p.worker w' = .waiting i := by
  rw [worker_take]
  by_cases hw : w' = w
  · subst hw
    by_cases hnext : p.next < count
    · simp [hnext, hready, eq_comm]
    · simp [hnext, hready]
  · simp [hw]

/-- Taking an item keeps the invariant. -/
theorem Inv.take (h : Inv count answers p) (hready : p.worker w = .ready) :
    Inv count answers (p.take count w) where
  open_iff i hi := by
    rw [show (p.take count w).slot i = p.slot i from rfl, h.open_iff i hi]
    simp only [waiting_take hready, show (p.take count w).next = p.next + 1 from rfl]
    constructor
    · rintro (hle | ⟨w', hw'⟩)
      · by_cases heq : i = p.next
        · exact Or.inr ⟨w, Or.inl ⟨rfl, heq, heq ▸ hi⟩⟩
        · exact Or.inl (by omega)
      · exact Or.inr ⟨w', Or.inr hw'⟩
    · rintro (hle | ⟨w', ⟨-, rfl, -⟩ | hw'⟩)
      · exact Or.inl (by omega)
      · exact Or.inl le_rfl
      · exact Or.inr ⟨w', hw'⟩
  waiting_lt w' i hw' := by
    rcases (waiting_take hready).mp hw' with ⟨-, rfl, hlt⟩ | hold
    · exact ⟨Nat.lt_succ_self _, hlt⟩
    · exact ⟨Nat.lt_succ_of_lt (h.waiting_lt w' i hold).1, (h.waiting_lt w' i hold).2⟩
  waiting_one w' w'' i hw' hw'' := by
    rcases (waiting_take hready).mp hw' with ⟨rfl, rfl, -⟩ | hold <;>
      rcases (waiting_take hready).mp hw'' with ⟨rfl, hi, -⟩ | hold'
    · rfl
    · exact absurd (h.waiting_lt _ _ hold').1 (Nat.lt_irrefl _)
    · exact absurd (h.waiting_lt _ _ hold).1 (hi ▸ Nat.lt_irrefl _)
    · exact h.waiting_one _ _ _ hold hold'
  written := h.written
  stopped w' hw' := by
    rw [worker_take] at hw'
    show count ≤ p.next + 1
    split_ifs at hw' with heq hlt
    · omega
    · exact Nat.le_succ_of_le (h.stopped w' hw')

omit [DecidableEq W] in
/-- The slot that an answer goes to is open. -/
theorem Inv.open_of_waiting (h : Inv count answers p) (hwaits : p.worker w = .waiting i) :
    p.slot i = none :=
  (h.open_iff i (h.waiting_lt w i hwaits).2).mpr (Or.inr ⟨w, hwaits⟩)

/-- Answering keeps the invariant. -/
theorem Inv.answer (h : Inv count answers p) (hwaits : p.worker w = .waiting i) (ha : answers i a) :
    Inv count answers (p.answer w i a) := by
  have hother : ∀ w' j,
      (p.answer w i a).worker w' = .waiting j ↔ w' ≠ w ∧ p.worker w' = .waiting j := by
    intro w' j
    rw [worker_answer]
    by_cases hw : w' = w
    · simp [hw]
    · simp [hw]
  obtain ⟨hlt, hcount⟩ := h.waiting_lt w i hwaits
  refine ⟨fun j hj => ?_, fun w' j hw' => h.waiting_lt w' j ((hother w' j).mp hw').2,
    fun w' w'' j hw' hw'' => h.waiting_one w' w'' j ((hother w' j).mp hw').2
      ((hother w'' j).mp hw'').2,
    fun j b hslot => ?_, fun w' hw' => ?_⟩
  · rw [slot_answer]
    simp only [hother, show (p.answer w i a).next = p.next from rfl]
    by_cases hij : j = i
    · subst hij
      rw [if_pos rfl]
      constructor
      · rintro ⟨⟩
      · rintro (hle | ⟨w', hne, hw'⟩)
        · omega
        · exact absurd (h.waiting_one w' w j hw' hwaits) hne
    · rw [if_neg hij, h.open_iff j hj]
      refine or_congr_right ⟨fun ⟨w', hw'⟩ => ⟨w', ?_, hw'⟩, fun ⟨w', _, hw'⟩ => ⟨w', hw'⟩⟩
      rintro rfl
      exact hij (Worker.waiting.inj (hw'.symm.trans hwaits))
  · rw [slot_answer] at hslot
    split_ifs at hslot with hij
    · obtain rfl := Option.some.inj hslot
      exact hij ▸ ⟨hcount, ha⟩
    · exact h.written j b hslot
  · rw [worker_answer] at hw'
    split_ifs at hw' with hw
    exact h.stopped w' hw'

/-- **One step** keeps the invariant. -/
theorem Inv.step (h : Inv count answers p) (hstep : Step count answers p fs q) :
    Inv count answers q := by
  cases hstep with
  | take w hready => exact h.take hready
  | answer w i a hwaits ha => exact h.answer hwaits ha

/-- A run keeps the invariant. -/
theorem Inv.steps (h : Inv count answers p) (hsteps : Steps (Step count answers) p n es q) :
    Inv count answers q :=
  hsteps.invariant (P := fun _ q => Inv count answers q) (fun _ _ _ _ hinv => hinv.step) h

/-! ## Nothing lost, nothing twice -/

omit [DecidableEq W] in
/-- **Nothing is lost.**  When every worker has stopped, and there is one, every
slot is filled with an answer to its index. -/
theorem Inv.filled [Nonempty W] (h : Inv count answers p) (hstop : ∀ w, p.worker w = .stopped)
    (hi : i < count) : ∃ a, p.slot i = some a ∧ answers i a := by
  cases hslot : p.slot i with
  | some a => exact ⟨a, rfl, (h.written i a hslot).2⟩
  | none =>
      rcases (h.open_iff i hi).mp hslot with hle | ⟨w, hw⟩
      · have hnext := h.stopped (Classical.arbitrary W) (hstop _)
        omega
      · cases (hstop w).symm.trans hw

/-- **Nothing is asked for twice.**  The indices asked for so far are the first
ones, in order. -/
theorem asked_range (hsteps : Steps (Step count answers) p n es q) :
    List.range (min p.next count) ++ asked es = List.range (min q.next count) := by
  refine hsteps.invariant (P := fun es q =>
    List.range (min p.next count) ++ asked es = List.range (min q.next count)) ?_ ?_
  · intro es q fs r hrange hstep
    rw [asked_append, ← List.append_assoc, hrange]
    cases hstep with
    | take w hready => exact range_asks count q.next
    | answer w i a hwaits ha => exact List.append_nil _
  · exact List.append_nil _

/-- A step answers items that were open, each once, and fills their slots. -/
theorem Inv.step_trace (h : Inv count answers p) (hstep : Step count answers p fs q) :
    (answered fs).Nodup ∧ (∀ i ∈ answered fs, p.slot i = none) ∧
      ∀ i, q.slot i ≠ none ↔ p.slot i ≠ none ∨ i ∈ answered fs := by
  cases hstep with
  | take w hready =>
      rw [answered_asks]
      exact ⟨List.nodup_nil, by simp, by simp [Pool.take]⟩
  | answer w i a hwaits ha =>
      rw [show answered [.answer i] = [i] from rfl]
      refine ⟨List.nodup_singleton i, ?_, fun j => ?_⟩
      · simpa using h.open_of_waiting hwaits
      · rw [slot_answer]
        by_cases hj : j = i
        · simp [hj]
        · simp [hj]

/-- **Nothing is done twice.**  The indices that a run answers are different, and
they are those whose slots it fills. -/
theorem Inv.trace (h : Inv count answers p) (hsteps : Steps (Step count answers) p n es q) :
    (answered es).Nodup ∧ (∀ i ∈ answered es, p.slot i = none) ∧
      ∀ i, q.slot i ≠ none ↔ p.slot i ≠ none ∨ i ∈ answered es := by
  induction hsteps with
  | refl => exact ⟨List.nodup_nil, by simp [answered], by simp [answered]⟩
  | @tail q r n es fs hsteps hstep ih =>
      obtain ⟨hnodup, hopen, hfilled⟩ := ih
      obtain ⟨hnodup', hopen', hfilled'⟩ := (h.steps hsteps).step_trace hstep
      have hdisjoint : ∀ i ∈ answered fs, p.slot i = none ∧ i ∉ answered es := by
        intro i hi
        have hnone := mt (hfilled i).mpr (not_not.mpr (hopen' i hi))
        exact ⟨not_not.mp fun hp => hnone (Or.inl hp), fun hes => hnone (Or.inr hes)⟩
      rw [answered_append]
      refine ⟨List.nodup_append.mpr ⟨hnodup, hnodup', ?_⟩, ?_, fun i => ?_⟩
      · rintro i hi j hj rfl
        exact (hdisjoint i hj).2 hi
      · intro i hi
        rcases List.mem_append.mp hi with hi | hi
        · exact hopen i hi
        · exact (hdisjoint i hi).1
      · rw [hfilled', hfilled, List.mem_append, or_assoc]

/-- What is answered has been asked for. -/
theorem answered_subset (hsteps : Steps (Step count answers) (start W α) n es q) :
    answered es ⊆ asked es := by
  intro i hi
  have hinv : Inv count answers q := inv_start.steps hsteps
  have hasked := asked_range hsteps
  obtain ⟨-, -, hfilled⟩ := inv_start.trace hsteps
  have hslot : q.slot i ≠ none := (hfilled i).mpr (Or.inr hi)
  obtain ⟨a, ha⟩ := Option.ne_none_iff_exists'.mp hslot
  have hcount : i < count := (hinv.written i a ha).1
  have hnext : i < q.next := Nat.not_le.mp fun hle =>
    hslot ((hinv.open_iff i hcount).mpr (Or.inl hle))
  rw [show (start W α).next = 0 from rfl, Nat.zero_min, List.range_zero, List.nil_append] at hasked
  rw [hasked, List.mem_range]
  omega

/-- A run from the start in which every worker stops asks for every index, and
each of them is answered once. -/
theorem trace_of_stopped [Nonempty W] (hsteps : Steps (Step count answers) (start W α) n es q)
    (hstop : ∀ w, q.worker w = .stopped) :
    asked es = List.range count ∧ (answered es).Perm (List.range count) := by
  have hinv : Inv count answers q := inv_start.steps hsteps
  obtain ⟨hnodup, -, hfilled⟩ := inv_start.trace hsteps
  have hnext : count ≤ q.next := hinv.stopped (Classical.arbitrary W) (hstop _)
  have hasked := asked_range hsteps
  rw [Nat.min_eq_right hnext] at hasked
  refine ⟨hasked, (List.perm_ext_iff_of_nodup hnodup List.nodup_range).mpr fun i => ?_⟩
  have hi : q.slot i ≠ none ↔ i ∈ answered es := by
    rw [hfilled i]
    simp [start]
  rw [← hi, List.mem_range]
  constructor
  · intro hslot
    obtain ⟨a, ha⟩ := Option.ne_none_iff_exists'.mp hslot
    exact (hinv.written i a ha).1
  · intro hlt
    obtain ⟨a, ha, -⟩ := hinv.filled hstop hlt
    simp [ha]

/-! ## Every run ends -/

/-- The turns that a worker has before it takes its next index. -/
def Worker.weight : Worker → Nat
  | .ready => 1
  | .waiting _ => 2
  | .stopped => 0

@[simp] theorem Worker.weight_ready : Worker.weight .ready = 1 := rfl
@[simp] theorem Worker.weight_waiting : Worker.weight (.waiting i) = 2 := rfl
@[simp] theorem Worker.weight_stopped : Worker.weight .stopped = 0 := rfl

section Rank

variable [Fintype W]

/-- The turns that are left. -/
def rank (count : Nat) (p : Pool W α) : Nat :=
  (∑ w, Worker.weight (p.worker w)) + 2 * (count - p.next)

/-- Changing one worker changes the sum by its weight. -/
theorem sum_weight_update (f : W → Worker) (w : W) (x : Worker) :
    (∑ w', Worker.weight (Function.update f w x w')) + Worker.weight (f w) =
      (∑ w', Worker.weight (f w')) + Worker.weight x := by
  have hrest : ∑ w' ∈ Finset.univ.erase w, Worker.weight (Function.update f w x w') =
      ∑ w' ∈ Finset.univ.erase w, Worker.weight (f w') :=
    Finset.sum_congr rfl fun w' hw' => by
      rw [Function.update_of_ne (Finset.ne_of_mem_erase hw')]
  have hnew := Finset.add_sum_erase Finset.univ (fun w' => Worker.weight (Function.update f w x w'))
    (Finset.mem_univ w)
  have hold := Finset.add_sum_erase Finset.univ (fun w' => Worker.weight (f w')) (Finset.mem_univ w)
  simp only [Function.update_self] at hnew
  omega

/-- **Every turn** uses up one of those that are left. -/
theorem Step.rank (hstep : Step count answers p fs q) : rank count q + 1 = rank count p := by
  cases hstep with
  | take w hready =>
      have hsum := sum_weight_update p.worker w
        (if p.next < count then .waiting p.next else .stopped)
      rw [hready, Worker.weight_ready] at hsum
      simp only [Pool.rank, Pool.take]
      split_ifs at hsum ⊢ with hlt
      · rw [Worker.weight_waiting] at hsum
        omega
      · rw [Worker.weight_stopped] at hsum
        omega
  | answer w i a hwaits ha =>
      have hsum := sum_weight_update p.worker w .ready
      rw [hwaits, Worker.weight_waiting, Worker.weight_ready] at hsum
      simp only [Pool.rank, Pool.answer]
      omega

/-- A run takes at most the turns that are left. -/
theorem rank_steps (hsteps : Steps (Step count answers) p n es q) :
    rank count q + n ≤ rank count p :=
  hsteps.rank_le fun _ _ _ hstep => by
    have := hstep.rank
    omega

end Rank

end Pool

end WorkPool
