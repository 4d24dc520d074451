/-
# Socks6.Auth.MethodSet — sets of methods in ascending order

A set of methods is the list of its members in strictly ascending order.  The
order is part of the type, so two sets with the same members are the same list,
and equality of sets is equality of values.
-/
import Socks6.Auth.Method

namespace Socks6

/-- Inserts a method in front of the first one that it precedes. -/
def AuthMethod.insertAscending (m : AuthMethod) : List AuthMethod → List AuthMethod
  | [] => [m]
  | x :: xs =>
    if m.rank < x.rank then m :: x :: xs
    else if m.rank = x.rank then x :: xs
    else x :: insertAscending m xs

namespace AuthMethod

theorem mem_insertAscending {m x : AuthMethod} {xs : List AuthMethod} :
    x ∈ insertAscending m xs ↔ x = m ∨ x ∈ xs := by
  induction xs with
  | nil => simp [insertAscending]
  | cons y ys ih =>
    unfold insertAscending
    split
    · simp
    · split
      · rename_i same
        rw [rank_injective same]
        simp
      · simp only [List.mem_cons, ih]
        exact or_left_comm

theorem pairwise_insertAscending {m : AuthMethod} {xs : List AuthMethod}
    (h : xs.Pairwise (fun a b => a.rank < b.rank)) :
    (insertAscending m xs).Pairwise (fun a b => a.rank < b.rank) := by
  induction xs with
  | nil => simp [insertAscending]
  | cons y ys ih =>
    rcases List.pairwise_cons.mp h with ⟨below, ascending⟩
    unfold insertAscending
    split
    · rename_i less
      refine List.pairwise_cons.mpr ⟨fun z hz => ?_, h⟩
      rcases List.mem_cons.mp hz with rfl | hz
      · exact less
      · exact Nat.lt_trans less (below z hz)
    · split
      · exact h
      · refine List.pairwise_cons.mpr ⟨fun z hz => ?_, ih ascending⟩
        rcases mem_insertAscending.mp hz with rfl | hz
        · omega
        · exact below z hz

end AuthMethod

/-- A set of methods. -/
structure MethodSet where
  toList : List AuthMethod
  ascending : toList.Pairwise (fun a b => a.rank < b.rank)
  deriving DecidableEq, Repr

namespace MethodSet

def empty : MethodSet := ⟨[], .nil⟩

def isEmpty (s : MethodSet) : Bool := s.toList.isEmpty

def contains (s : MethodSet) (m : AuthMethod) : Bool := s.toList.contains m

/-- The set with one more member. -/
def insert (s : MethodSet) (m : AuthMethod) : MethodSet :=
  ⟨m.insertAscending s.toList, AuthMethod.pairwise_insertAscending s.ascending⟩

/-- The set with more members. -/
def insertAll (s : MethodSet) (ms : List AuthMethod) : MethodSet := ms.foldl insert s

theorem mem_insert {s : MethodSet} {m x : AuthMethod} :
    x ∈ (s.insert m).toList ↔ x = m ∨ x ∈ s.toList :=
  AuthMethod.mem_insertAscending

theorem mem_insertAll {s : MethodSet} {ms : List AuthMethod} {x : AuthMethod} :
    x ∈ (s.insertAll ms).toList ↔ x ∈ ms ∨ x ∈ s.toList := by
  induction ms generalizing s with
  | nil => simp [insertAll]
  | cons m ms ih =>
    have step := @ih (s.insert m)
    simp only [insertAll, List.foldl_cons] at step ⊢
    rw [step, mem_insert, List.mem_cons]
    exact or_left_comm.trans or_assoc.symm

end MethodSet

end Socks6
