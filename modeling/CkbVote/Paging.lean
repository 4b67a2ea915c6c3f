import Mathlib.Data.List.Basic

/-!
# Reading a list page by page

A service answers a request with the next entries of a list, at most a page of
them, and a cursor.  The reader collects pages until one is not full.  On a
service that pages through a list (`Serves`), the reader returns the list
(`readAll_eq`); a list whose length is a multiple of the page size costs one
more request, which is answered with an empty page.  The service is asked for no
cursor that it has not returned.
-/

namespace Paging

variable {Entry Cursor : Type}

/-- Collects pages, one request for each unit of fuel. -/
def readAll (request : Option Cursor → Option (List Entry × Cursor)) (size : Nat) :
    Nat → Option Cursor → List Entry → Option (List Entry)
  | 0, _, _ => none
  | fuel + 1, cursor, all => do
      let (page, last) ← request cursor
      let all := all ++ page
      if page.length < size then some all else readAll request size fuel (some last) all

/-- Where a request starts. -/
def startOf (position : Cursor → Nat) : Option Cursor → Nat
  | none => 0
  | some cursor => position cursor

/-- The cursors that a reader of full pages asks for: none at first, then those
that it was given. -/
inductive Asked (request : Option Cursor → Option (List Entry × Cursor)) (size : Nat) :
    Option Cursor → Prop
  | first : Asked request size none
  | next {cursor : Option Cursor} {page : List Entry} {last : Cursor}
      (h : Asked request size cursor) (hrequest : request cursor = some (page, last))
      (hfull : page.length = size) : Asked request size (some last)

/-- The service pages through the list.  What the cursor of the last page is does
not matter. -/
def Serves (request : Option Cursor → Option (List Entry × Cursor)) (size : Nat)
    (entries : List Entry) (position : Cursor → Nat) : Prop :=
  ∀ cursor, Asked request size cursor → ∃ last,
    request cursor = some ((entries.drop (startOf position cursor)).take size, last) ∧
    (startOf position cursor + size ≤ entries.length →
      position last = startOf position cursor + size)

variable {request : Option Cursor → Option (List Entry × Cursor)} {size fuel : Nat}
  {entries all : List Entry} {position : Cursor → Nat} {cursor : Option Cursor}

/-- The reader has the entries before the cursor, and there is fuel for the rest. -/
theorem readAll_from (h : Serves request size entries position) (hsize : 0 < size)
    (hasked : Asked request size cursor) (hle : startOf position cursor ≤ entries.length)
    (hall : all = entries.take (startOf position cursor))
    (hfuel : (entries.length - startOf position cursor) / size < fuel) :
    readAll request size fuel cursor all = some entries := by
  induction fuel generalizing cursor all with
  | zero => exact absurd hfuel (Nat.not_lt_zero _)
  | succ fuel ih =>
      obtain ⟨last, hrequest, hlast⟩ := h cursor hasked
      have happend : all ++ (entries.drop (startOf position cursor)).take size =
          entries.take (startOf position cursor + size) := by
        rw [hall, List.take_add]
      rw [readAll, hrequest]
      simp only [Option.bind_eq_bind, Option.bind_some, happend, List.length_take, List.length_drop]
      split_ifs with hlt
      · rw [List.take_of_length_le (by omega)]
      · have hnext := hlast (by omega)
        have hdiv : (entries.length - startOf position cursor) / size =
            (entries.length - (startOf position cursor + size)) / size + 1 := by
          rw [← Nat.add_div_right _ hsize]
          congr 1
          omega
        have hfull : ((entries.drop (startOf position cursor)).take size).length = size := by
          rw [List.length_take, List.length_drop]
          omega
        refine ih (.next hasked hrequest hfull) ?_ ?_ ?_
        · rw [startOf, hnext]
          omega
        · rw [startOf, hnext]
        · rw [startOf, hnext]
          omega

/-- **All pages** make the list. -/
theorem readAll_eq (h : Serves request size entries position) (hsize : 0 < size)
    (hfuel : entries.length / size < fuel) : readAll request size fuel none [] = some entries :=
  readAll_from h hsize .first (Nat.zero_le _) rfl hfuel

end Paging
