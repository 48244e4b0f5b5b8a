import DeltaCycle.Signal

/-!
# The event queue

What is due at later ticks, in the order in which it comes due; entries of one tick
keep the order in which they were pushed. The entries lie in a heap, and every entry
has a serial number, so that no two entries are due at the same place in the order.

A heap is well formed if its sizes are right and no entry comes before the one above
it. Every operation keeps heaps well formed. The entries of a heap are seen as a list in
no particular order: `toList_merge`, `toList_push` and `toList_popDue` say that no entry
is lost, doubled or invented.
-/

set_option autoImplicit false

namespace DeltaCycle

/-- What happens when an entry comes due. -/
inductive Payload where
  /-- The arming becomes ready. -/
  | wake (arming : Arming)
  /-- The value of an inertial signal is committed if the stamp still holds. -/
  | apply (signal : SignalId) (value : Value) (stamp : Nat)
deriving Repr, DecidableEq, Inhabited

/-- A payload, the tick at which it is due, and its number among all that were pushed. -/
structure Entry where
  time : Nat
  serial : Nat
  payload : Payload
deriving Repr, DecidableEq, Inhabited

namespace Entry

/-- Whether an entry comes due no later than another one, in the order of ticks and then
of serial numbers. -/
def le (a b : Entry) : Bool := a.time < b.time || (a.time == b.time && a.serial ≤ b.serial)

theorem le_refl (a : Entry) : a.le a = true := by simp [le]

theorem le_trans {a b c : Entry} (ab : a.le b = true) (bc : b.le c = true) :
    a.le c = true := by
  simp only [le, Bool.or_eq_true, Bool.and_eq_true, decide_eq_true_eq, beq_iff_eq] at *
  omega

theorem le_of_not_le {a b : Entry} (h : a.le b ≠ true) : b.le a = true := by
  simp only [le, ne_eq, Bool.or_eq_true, Bool.and_eq_true, decide_eq_true_eq, beq_iff_eq] at *
  omega

end Entry

/-- A binary tree of entries. Each node has the number of entries in it, and the larger
part on the left. -/
inductive Heap where
  | empty
  | node (size : Nat) (top : Entry) (left right : Heap)
deriving Repr, Inhabited

namespace Heap

/-- The number of entries. -/
def size : Heap → Nat
  | empty => 0
  | node size .. => size

/-- The heap with `top` above two others. -/
def join (top : Entry) (a b : Heap) : Heap :=
  if b.size ≤ a.size then node (a.size + b.size + 1) top a b
  else node (a.size + b.size + 1) top b a

/-- The entries of a node and another heap, given how to merge the right part of the
node with a heap. -/
def mergeNode (size : Nat) (top : Entry) (left right : Heap) (mergeRight : Heap → Heap) :
    Heap → Heap
  | empty => node size top left right
  | node size' top' left' right' =>
      if top.le top' then join top left (mergeRight (node size' top' left' right'))
      else join top' left' (mergeNode size top left right mergeRight right')

/-- The entries of two heaps. The work is done along the right sides, which are short. -/
def merge : Heap → Heap → Heap
  | empty => fun other => other
  | node size top left right => mergeNode size top left right (merge right)

/-- The entries in no particular order. -/
def toList : Heap → List Entry
  | empty => []
  | node _ top left right => top :: (left.toList ++ right.toList)

/-- Whether all entries satisfy a condition. -/
def All (p : Entry → Prop) : Heap → Prop
  | empty => True
  | node _ top left right => p top ∧ left.All p ∧ right.All p

/-- Sizes are right, and no entry comes before the one above it. -/
def WellFormed : Heap → Prop
  | empty => True
  | node size top left right =>
      size = left.size + right.size + 1 ∧
      left.All (top.le · = true) ∧ right.All (top.le · = true) ∧
      left.WellFormed ∧ right.WellFormed

theorem All.imp {p q : Entry → Prop} (h : ∀ e, p e → q e) {a : Heap} (all : a.All p) :
    a.All q := by
  induction a with
  | empty => trivial
  | node size top left right leftIH rightIH =>
      exact ⟨h top all.1, leftIH all.2.1, rightIH all.2.2⟩

theorem all_iff {p : Entry → Prop} {a : Heap} : a.All p ↔ ∀ e ∈ a.toList, p e := by
  induction a with
  | empty => simp [All, toList]
  | node size top left right leftIH rightIH =>
      simp only [All, toList, leftIH, rightIH, List.mem_cons, List.mem_append]
      grind

theorem size_join (top : Entry) (a b : Heap) : (join top a b).size = a.size + b.size + 1 := by
  unfold join
  split <;> rfl

theorem all_join {p : Entry → Prop} {top : Entry} {a b : Heap} :
    (join top a b).All p ↔ p top ∧ a.All p ∧ b.All p := by
  unfold join
  split
  · rfl
  · simp only [All, and_comm (a := b.All p)]

theorem wellFormed_join {top : Entry} {a b : Heap} (aboveA : a.All (top.le · = true))
    (aboveB : b.All (top.le · = true)) (wfA : a.WellFormed) (wfB : b.WellFormed) :
    (join top a b).WellFormed := by
  unfold join
  split
  · exact ⟨rfl, aboveA, aboveB, wfA, wfB⟩
  · exact ⟨by omega, aboveB, aboveA, wfB, wfA⟩

theorem toList_join (top : Entry) (a b : Heap) :
    (join top a b).toList.Perm (top :: (a.toList ++ b.toList)) := by
  unfold join
  split
  · exact .refl _
  · exact List.perm_append_comm.cons top

/-- Merging keeps the entries of both heaps. -/
theorem toList_merge (a b : Heap) : (a.merge b).toList.Perm (a.toList ++ b.toList) := by
  induction a generalizing b with
  | empty => exact .refl _
  | node size top left right _ rightIH =>
      rw [merge]
      induction b with
      | empty => simp [mergeNode, toList]
      | node size' top' left' right' _ rightIH' =>
          rw [mergeNode]
          split
          · have merged := (rightIH (node size' top' left' right')).append_left left.toList
            rw [← List.append_assoc] at merged
            exact (toList_join _ _ _).trans (merged.cons top)
          · have merged := (rightIH'.append_left left'.toList).trans List.perm_append_comm
            rw [List.append_assoc] at merged
            refine (toList_join _ _ _).trans ((merged.cons top').trans ?_)
            exact ((List.perm_append_comm.append_left _).cons top').trans List.perm_middle.symm

/-- Merging keeps what holds of all entries of both heaps. -/
theorem all_merge {p : Entry → Prop} {a b : Heap} : (a.merge b).All p ↔ a.All p ∧ b.All p := by
  induction a generalizing b with
  | empty => simp [merge, All]
  | node size top left right _ rightIH =>
      rw [merge]
      induction b with
      | empty => simp [mergeNode, All]
      | node size' top' left' right' _ rightIH' =>
          rw [mergeNode]
          split
          · rw [all_join, rightIH]
            simp only [All]
            grind
          · rw [all_join, rightIH']
            simp only [All]
            grind

/-- Merging well-formed heaps adds their sizes. -/
theorem size_merge {a b : Heap} (wfA : a.WellFormed) (wfB : b.WellFormed) :
    (a.merge b).size = a.size + b.size := by
  induction a generalizing b with
  | empty => simp [merge, size]
  | node size top left right _ rightIH =>
      obtain ⟨sizes, _, _, _, wfRight⟩ := wfA
      rw [merge]
      induction b with
      | empty => simp [mergeNode, Heap.size]
      | node size' top' left' right' _ rightIH' =>
          rw [mergeNode]
          split
          · rw [size_join, rightIH wfRight wfB]
            simp only [Heap.size] at *
            omega
          · rw [size_join, rightIH' wfB.2.2.2.2]
            have sizes' := wfB.1
            simp only [Heap.size] at *
            omega

theorem wellFormed_merge {a b : Heap} (wfA : a.WellFormed) (wfB : b.WellFormed) :
    (a.merge b).WellFormed := by
  induction a generalizing b with
  | empty => exact wfB
  | node size top left right _ rightIH =>
      have wf := wfA
      obtain ⟨_, aboveLeft, aboveRight, wfLeft, wfRight⟩ := wfA
      rw [merge]
      induction b with
      | empty => exact wf
      | node size' top' left' right' _ rightIH' =>
          have wf' := wfB
          obtain ⟨_, aboveLeft', aboveRight', wfLeft', wfRight'⟩ := wfB
          rw [mergeNode]
          split
          · next first =>
              refine wellFormed_join aboveLeft ?_ wfLeft (rightIH wfRight wf')
              refine all_merge.mpr ⟨aboveRight, first, ?_, ?_⟩
              · exact aboveLeft'.imp fun e h => Entry.le_trans first h
              · exact aboveRight'.imp fun e h => Entry.le_trans first h
          · next later =>
              have first := Entry.le_of_not_le later
              refine wellFormed_join aboveLeft' ?_ wfLeft' (rightIH' wfRight')
              have merged : ((node size top left right).merge right').All (top'.le · = true) := by
                refine all_merge.mpr ⟨⟨first, ?_, ?_⟩, aboveRight'⟩
                · exact aboveLeft.imp fun e h => Entry.le_trans first h
                · exact aboveRight.imp fun e h => Entry.le_trans first h
              exact merged

end Heap

/-- The entries that were pushed and not taken yet. -/
structure EventQueue where
  heap : Heap := .empty
  /-- The number of entries that were ever pushed. -/
  pushed : Nat := 0
  wellFormed : heap.WellFormed := by trivial
  /-- Every serial number was given out. -/
  fresh : heap.All (·.serial < pushed) := by trivial

instance : Inhabited EventQueue := ⟨{}⟩

namespace EventQueue

/-- Adds an entry. -/
def push (q : EventQueue) (time : Nat) (payload : Payload) : EventQueue where
  heap := (Heap.node 1 ⟨time, q.pushed, payload⟩ .empty .empty).merge q.heap
  pushed := q.pushed + 1
  wellFormed := Heap.wellFormed_merge ⟨rfl, trivial, trivial, trivial, trivial⟩ q.wellFormed
  fresh := Heap.all_merge.mpr
    ⟨⟨Nat.lt_succ_self _, trivial, trivial⟩, q.fresh.imp fun _ h => Nat.lt_succ_of_lt h⟩

/-- The entries in no particular order. -/
def toList (q : EventQueue) : List Entry := q.heap.toList

/-- Adding an entry keeps the others. -/
theorem toList_push (q : EventQueue) (time : Nat) (payload : Payload) :
    (q.push time payload).toList.Perm (⟨time, q.pushed, payload⟩ :: q.toList) :=
  Heap.toList_merge _ _

/-- The tick of the earliest entry. -/
def nextTime? (q : EventQueue) : Option Nat :=
  match q.heap with
  | .empty => none
  | .node _ top _ _ => some top.time

/-- Takes the earliest entry if it is due at this tick. -/
def popDue (q : EventQueue) (time : Nat) : Option (Payload × EventQueue) :=
  match q with
  | { heap := .empty, .. } => none
  | { heap := .node _ top left right, pushed, wellFormed, fresh } =>
      if top.time = time then
        some (top.payload,
          { heap := left.merge right
            pushed
            wellFormed := Heap.wellFormed_merge wellFormed.2.2.2.1 wellFormed.2.2.2.2
            fresh := Heap.all_merge.mpr fresh.2 })
      else
        none

/-- An entry is taken at its tick, and it is the first of all in the order of ticks and
serial numbers; the others stay. -/
theorem toList_popDue {q rest : EventQueue} {time : Nat} {payload : Payload}
    (popped : q.popDue time = some (payload, rest)) :
    ∃ first : Entry, first.time = time ∧ first.payload = payload ∧
      (∀ e ∈ rest.toList, first.le e = true) ∧ q.toList.Perm (first :: rest.toList) := by
  rcases q with ⟨heap, pushed, wellFormed, fresh⟩
  cases heap with
  | empty => simp [popDue] at popped
  | node size top left right =>
      simp only [popDue] at popped
      split at popped
      · next due =>
          cases popped
          refine ⟨top, due, rfl, ?_, (Heap.toList_merge left right).symm.cons top⟩
          exact Heap.all_iff.mp (Heap.all_merge.mpr ⟨wellFormed.2.1, wellFormed.2.2.1⟩)
      · cases popped

/-- The number of entries. -/
def size (q : EventQueue) : Nat := q.heap.size

/-- An entry that is taken makes the queue shorter by one. -/
theorem size_popDue {q rest : EventQueue} {time : Nat} {payload : Payload}
    (popped : q.popDue time = some (payload, rest)) : rest.size + 1 = q.size := by
  rcases q with ⟨heap, pushed, wellFormed, fresh⟩
  cases heap with
  | empty => simp [popDue] at popped
  | node size top left right =>
      simp only [popDue] at popped
      split at popped
      · cases popped
        have merged := Heap.size_merge wellFormed.2.2.2.1 wellFormed.2.2.2.2
        exact (congrArg (· + 1) merged).trans wellFormed.1.symm
      · cases popped

/-- Forgets the entries. The numbering goes on. -/
def clear (q : EventQueue) : EventQueue where
  pushed := q.pushed

end EventQueue

end DeltaCycle
