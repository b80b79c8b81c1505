/-!
# Backlogs

A backlog is a line of items, the most urgent first. An item enters behind all items that it does
not precede, so items that are equally urgent keep the order in which they came, and no item enters
while one like it is there. Main statements: `mem_push` and `sorted_push`.
-/

namespace StageGate

universe u

/-- How a backlog ranks its items, and which items it takes for the same. -/
structure Discipline (α : Type u) where
  order : α → α → Ordering
  same : α → α → Bool

structure Backlog (α : Type u) where
  items : List α := []
deriving DecidableEq, Repr, Inhabited

namespace Backlog

variable {α : Type u}

/-- Puts an item in front of the first one that it precedes, which is looked for from the front. A
binary search is sure to find that place only where the order partitions the items, so that nothing
behind the place precedes the item or ties with it. In a line that was made by pushes this holds for
every total preorder (`sorted_push`); for other orders the place is a choice of this definition. -/
def insertBehind (order : α → α → Ordering) (item : α) : List α → List α
  | [] => [item]
  | queued :: rest =>
    if order queued item = .gt then item :: queued :: rest
    else queued :: insertBehind order item rest

def contains (d : Discipline α) (b : Backlog α) (item : α) : Bool :=
  b.items.any fun queued => d.same queued item

def push (d : Discipline α) (b : Backlog α) (item : α) : Bool × Backlog α :=
  if b.contains d item then (false, b) else (true, ⟨insertBehind d.order item b.items⟩)

def peek? (b : Backlog α) : Option α := b.items.head?

def pop (b : Backlog α) : Option α × Backlog α := (b.items.head?, ⟨b.items.tail⟩)

def removeFirst (b : Backlog α) (test : α → Bool) : Option α × Backlog α :=
  (b.items.find? test, ⟨b.items.eraseP test⟩)

def remove (d : Discipline α) (b : Backlog α) (item : α) : Option α × Backlog α :=
  b.removeFirst fun queued => d.same queued item

theorem push_of_known {d : Discipline α} {b : Backlog α} {item : α}
    (h : b.contains d item = true) : b.push d item = (false, b) := if_pos h

theorem push_of_fresh {d : Discipline α} {b : Backlog α} {item : α}
    (h : b.contains d item = false) :
    b.push d item = (true, ⟨insertBehind d.order item b.items⟩) := by
  simp [push, h]

theorem mem_insertBehind {order : α → α → Ordering} {item x : α} {items : List α} :
    x ∈ insertBehind order item items ↔ x = item ∨ x ∈ items := by
  induction items with
  | nil => simp [insertBehind]
  | cons queued rest ih =>
    simp only [insertBehind]
    split
    · simp
    · simp only [List.mem_cons, ih]
      exact or_left_comm

theorem mem_push {d : Discipline α} {b : Backlog α} {item x : α} :
    x ∈ (b.push d item).2.items ↔
      (b.contains d item = false ∧ x = item) ∨ x ∈ b.items := by
  unfold push
  split
  · next h => simp [h]
  · next h => simp [mem_insertBehind, h]

/-- A line that rises by the order still does once an item has entered. -/
theorem sorted_push {d : Discipline α} (total : ∀ x y, d.order x y = (d.order y x).swap)
    (trans : ∀ x y z, d.order x y ≠ .gt → d.order y z ≠ .gt → d.order x z ≠ .gt)
    {b : Backlog α} (h : b.items.Pairwise fun x y => d.order x y ≠ .gt) (item : α) :
    (b.push d item).2.items.Pairwise fun x y => d.order x y ≠ .gt := by
  have go : ∀ items : List α, items.Pairwise (fun x y => d.order x y ≠ .gt) →
      (insertBehind d.order item items).Pairwise fun x y => d.order x y ≠ .gt := by
    intro items
    induction items with
    | nil => intro _; simp [insertBehind]
    | cons queued rest ih =>
      intro h
      have hr := List.pairwise_cons.1 h
      simp only [insertBehind]
      split
      · next hc =>
        have hq : d.order item queued ≠ .gt := by
          rw [total, hc]; decide
        refine List.pairwise_cons.2 ⟨fun y hy => ?_, h⟩
        rcases List.mem_cons.1 hy with rfl | hy
        · exact hq
        · exact trans _ _ _ hq (hr.1 y hy)
      · next hc =>
        refine List.pairwise_cons.2 ⟨fun y hy => ?_, ih hr.2⟩
        rcases mem_insertBehind.1 hy with rfl | hy
        · exact hc
        · exact hr.1 y hy
  unfold push
  split
  · exact h
  · exact go _ h

end Backlog

end StageGate
