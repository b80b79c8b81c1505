import Mathlib.Data.List.Induction
import StageGate.Gate
import StageGate.Proofs.Moments
import StageGate.Proofs.StableSort

/-!
# What a backlog has in stock

Items are put in line, handed over from the front, and picked out of the line, in any order. Main
statement: `items_after`. Whatever the calls, a backlog that ranks its items holds the stable sort
of its stock: of what it accepted and has not handed over since, as it came. The order and the test
of likeness need not agree. Items that are alike may be ranked apart, and others may be tied.
-/

namespace StageGate

structure Discipline.Lawful {α : Type} (d : Discipline α) : Prop where
  ranks : Ranks (Backlog.before d.order)
  refl : ∀ x, d.same x x = true
  symm : ∀ x y, d.same x y = d.same y x

namespace Backlog

variable {α : Type} {d : Discipline α} {b b' : Backlog α} {items kept : List α} {item x : α}
  {test : α → Bool}

inductive Call (α : Type) where
  | push (item : α)
  | pop
  | remove (item : α)
  | removeFirst (test : α → Bool)

def perform (d : Discipline α) (b : Backlog α) : Call α → Backlog α
  | .push item => (b.push d item).2
  | .pop => b.pop.2
  | .remove item => (b.remove d item).2
  | .removeFirst test => (b.removeFirst test).2

def after (d : Discipline α) (calls : List (Call α)) : Backlog α := calls.foldl (perform d) {}

def log (d : Discipline α) (calls : List (Call α)) : List (Moment (Backlog α) (Call α)) :=
  moments (perform d) {} calls

def accepted? (d : Discipline α) (b : Backlog α) : Call α → Option α
  | .push item => if (b.push d item).1 then some item else none
  | _ => none

def handed? (d : Discipline α) (b : Backlog α) : Call α → Option α
  | .push _ => none
  | .pop => b.pop.1
  | .remove item => (b.remove d item).1
  | .removeFirst test => (b.removeFirst test).1

def partsWith (d : Discipline α) (b : Backlog α) (c : Call α) (x : α) : Bool :=
  (handed? d b c).any (d.same · x)

/-- What was accepted and none of its like was handed over later, in the order in which it came. -/
def stock (d : Discipline α) : List (Moment (Backlog α) (Call α)) → List α :=
  remaining (fun m => accepted? d m.state m.act) fun m => partsWith d m.state m.act

/-- Hands over the first item that passes a test, and leaves the line as it is if there is none. -/
inductive TakesFirst (test : α → Bool) (items : List α) : Option α × Backlog α → Prop where
  | none (missed : ∀ x ∈ items, test x = false) : TakesFirst test items (none, ⟨items⟩)
  | first {front rest : List α} {x : α} (split : items = front ++ x :: rest)
      (passed : ∀ y ∈ front, test y = false) (hit : test x = true) :
      TakesFirst test items (some x, ⟨front ++ rest⟩)

-- ---------------------------------------------------------------------------
-- One call
-- ---------------------------------------------------------------------------

theorem takesFirst_removeFirst (test : α → Bool) (b : Backlog α) :
    TakesFirst test b.items (b.removeFirst test) := by
  obtain ⟨items⟩ := b
  unfold removeFirst
  cases hf : items.find? test with
  | none =>
    have hmissed : ∀ x ∈ items, ¬ test x = true := List.find?_eq_none.mp hf
    rw [List.eraseP_of_forall_not hmissed]
    exact .none fun x hx => Bool.eq_false_iff.mpr (hmissed x hx)
  | some x =>
    obtain ⟨hit, front, rest, rfl, hpassed⟩ := List.find?_eq_some_iff_append.mp hf
    have hfront : ∀ y ∈ front, ¬ test y = true := fun y hy => by simpa using hpassed y hy
    rw [List.eraseP_append_right _ hfront, List.eraseP_cons_of_pos hit]
    exact .first rfl (fun y hy => Bool.eq_false_iff.mpr (hfront y hy)) hit

theorem takesFirst_pop (b : Backlog α) : TakesFirst (fun _ => true) b.items b.pop := by
  obtain ⟨_ | ⟨x, rest⟩⟩ := b
  · exact .none fun _ _ => by contradiction
  · have hsplit : x :: rest = [] ++ x :: rest := rfl
    exact .first hsplit (fun _ _ => by contradiction) rfl

structure Holds (d : Discipline α) (b : Backlog α) (kept : List α) : Prop where
  items : b.items = kept.mergeSort (before d.order)
  distinct : kept.Pairwise fun x y => d.same x y = false

namespace Holds

theorem mem_iff (h : Holds d b kept) : x ∈ b.items ↔ x ∈ kept := by
  rw [h.items, List.mem_mergeSort]

theorem push (lawful : d.Lawful) (h : Holds d b kept) (fresh : b.contains d item = false) :
    Holds d ⟨insertBehind d.order item b.items⟩ (kept ++ [item]) where
  items := by rw [h.items, insertBehind_mergeSort lawful.ranks]
  distinct := by
    refine List.pairwise_append.mpr ⟨h.distinct, List.pairwise_singleton _ _, fun x hx y hy => ?_⟩
    have hnew : ∀ x ∈ b.items, ¬ d.same x item = true := List.any_eq_false.mp fresh
    rw [List.mem_singleton.mp hy]
    exact Bool.eq_false_iff.mpr (hnew x (h.mem_iff.mpr hx))

theorem rest_eq_filter (lawful : d.Lawful) {front rest : List α}
    (apart : (front ++ x :: rest).Pairwise fun x y => d.same x y = false) :
    front ++ rest = (front ++ x :: rest).filter (!d.same x ·) := by
  obtain ⟨-, hcons, hcross⟩ := List.pairwise_append.mp apart
  have hfront : front.filter (!d.same x ·) = front := by
    refine List.filter_eq_self.mpr fun y hy => ?_
    rw [lawful.symm, hcross y hy x List.mem_cons_self]
    rfl
  have hrest : rest.filter (!d.same x ·) = rest := by
    refine List.filter_eq_self.mpr fun y hy => ?_
    rw [(List.pairwise_cons.mp hcons).1 y hy]
    rfl
  simp [hfront, hrest, lawful.refl]

theorem takes (lawful : d.Lawful) (h : Holds d b kept) {x? : Option α}
    (ht : TakesFirst test b.items (x?, b')) :
    Holds d b' (kept.filter fun y => !x?.any (d.same · y)) := by
  cases ht with
  | none missed =>
    have hall : (kept.filter fun y => !(Option.none : Option α).any (d.same · y)) = kept := by simp
    rw [hall]
    exact h
  | @first front rest x split passed hit =>
    have hperm : b.items.Perm kept := h.items ▸ List.mergeSort_perm kept _
    have hapart : b.items.Pairwise fun x y => d.same x y = false :=
      (hperm.pairwise_iff fun hxy => by rwa [lawful.symm]).mpr h.distinct
    have hgone : front ++ rest = b.items.filter (!d.same x ·) := by
      rw [split] at hapart ⊢
      exact rest_eq_filter lawful hapart
    refine ⟨?_, h.distinct.filter _⟩
    show front ++ rest = (kept.filter (!d.same x ·)).mergeSort _
    rw [hgone, h.items, lawful.ranks.filter_mergeSort]

theorem perform (lawful : d.Lawful) (h : Holds d b kept) (c : Call α) :
    Holds d (perform d b c)
      ((kept.filter fun x => !partsWith d b c x) ++ (accepted? d b c).toList) := by
  have taken {x? : Option α} {test : α → Bool} {b' : Backlog α}
      (ht : TakesFirst test b.items (x?, b')) :
      Holds d b' ((kept.filter fun y => !x?.any (d.same · y)) ++ []) := by
    rw [List.append_nil]
    exact h.takes lawful ht
  cases c with
  | push item =>
    have hall : (kept.filter fun x => !partsWith d b (.push item) x) = kept := by
      simp [partsWith, handed?]
    rw [hall]
    unfold Backlog.perform accepted?
    cases hc : b.contains d item with
    | true => simpa [push_of_known hc] using h
    | false => simpa [push_of_fresh hc] using h.push lawful hc
  | pop => exact taken (takesFirst_pop b)
  | remove item => exact taken (takesFirst_removeFirst _ b)
  | removeFirst test => exact taken (takesFirst_removeFirst test b)

end Holds

-- ---------------------------------------------------------------------------
-- Any calls
-- ---------------------------------------------------------------------------

theorem holds_after (lawful : d.Lawful) (calls : List (Call α)) :
    Holds d (after d calls) (stock d (log d calls)) := by
  induction calls using List.reverseRecOn with
  | nil => exact ⟨by simp [after, stock, remaining, log, moments], .nil⟩
  | append_singleton calls c ih =>
    have hafter : after d (calls ++ [c]) = Backlog.perform d (after d calls) c := by simp [after]
    rw [log, moments_concat, hafter, stock, remaining_concat]
    exact ih.perform lawful c

/-- After any calls on an empty backlog whose discipline ranks its items: what is in line is the
stable sort of the stock, of which no two items are the same. A push is accepted exactly if nothing
in line is the same as the item, and changes nothing if it is refused. A pop hands over the first of
the line, and a removal the first that passes the test. -/
theorem items_after (lawful : d.Lawful) (calls : List (Call α)) :
    let b := after d calls
    let line := (stock d (log d calls)).mergeSort (before d.order)
    b.items = line ∧ (stock d (log d calls)).Pairwise (fun x y => d.same x y = false) ∧
    (∀ item, ((b.push d item).1 = true ↔ ∀ x ∈ line, d.same x item = false) ∧
      ((b.push d item).1 = false → (b.push d item).2 = b)) ∧
    b.pop = (line.head?, ⟨line.tail⟩) ∧
    (∀ test, TakesFirst test line (b.removeFirst test)) ∧
    ∀ item, TakesFirst (d.same · item) line (b.remove d item) := by
  intro b line
  have hb : Holds d b (stock d (log d calls)) := holds_after lawful calls
  have hline : b.items = line := hb.items
  refine ⟨hline, hb.distinct, fun item => ?_, ?_, fun test => ?_, fun item => ?_⟩
  · have hcontains : b.contains d item = false ↔ ∀ x ∈ line, d.same x item = false := by
      rw [← hline]
      simp [contains]
    cases hc : b.contains d item with
    | true => simp [push_of_known hc, ← hcontains, hc]
    | false => simp [push_of_fresh hc, ← hcontains, hc]
  · rw [← hline]
    rfl
  · exact hline ▸ takesFirst_removeFirst test b
  · exact hline ▸ takesFirst_removeFirst _ b

end Backlog

/-- The line at a gate is a line of this kind, whatever it is that ranks promotions. -/
theorem Entry.lawful_discipline (order : Entry → Entry → Ordering) [Std.TransCmp order] :
    (discipline order).Lawful where
  ranks := Backlog.ranks_before order
  refl e := beq_self_eq_true e.key
  symm _ _ := Bool.beq_comm

namespace Backlog.Sample

/-- By age alone, so that the keys of two promotions do not decide which one comes first. -/
def byAge : Discipline Entry := Entry.discipline (compareOn Entry.created)

def entry (name : String) (seconds : Int) : Entry := ⟨⟨"ns", name⟩, ⟨seconds, 0⟩⟩

def calls : List (Call Entry) :=
  [.push (entry "b" 5), .push (entry "c" 1), .push (entry "b" 0), .push (entry "a" 5), .pop]

end Backlog.Sample

open Backlog Backlog.Sample in
theorem items_after_sample : byAge.Lawful ∧
    (stock byAge (log byAge calls)).mergeSort (before byAge.order) = [entry "b" 5, entry "a" 5] ∧
    ((after byAge calls).push byAge (entry "a" 7)).1 = false ∧
    TakesFirst (byAge.same · (entry "a" 7)) [entry "b" 5, entry "a" 5]
      ((after byAge calls).remove byAge (entry "a" 7)) := by
  have hlawful : byAge.Lawful := Entry.lawful_discipline _
  obtain ⟨hline, -, -, -, -, hremove⟩ := items_after hlawful calls
  have hitems : (after byAge calls).items = [entry "b" 5, entry "a" 5] := by decide +kernel
  rw [hitems] at hline
  exact ⟨hlawful, hline.symm, by decide +kernel, hline ▸ hremove (entry "a" 7)⟩

end StageGate
