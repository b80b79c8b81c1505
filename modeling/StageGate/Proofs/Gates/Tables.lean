import Mathlib.Data.List.Destutter
import Mathlib.Data.List.Sort
import StageGate.Proofs.Gates.Calls

/-!
# The gates as two tables

The gates of all stages can be laid out as two tables: one of the holders, in which an idle stage
has no entry, and one of the lines, whose entries are never taken out. A stage is known if it has an
entry in either. Main statements: `Lays.after`, `Lays.history` and `Lays.stages`. Tables that lay out
gates answer every sequence of calls as these do, lay them out after it, and know the same stages.
-/

namespace StageGate

structure Tables where
  order : Entry → Entry → Ordering := Entry.oldestFirst
  holders : SortedMap StageKey PromotionKey := .empty
  lines : SortedMap StageKey (Backlog Entry) := .empty

namespace Tables

-- ---------------------------------------------------------------------------
-- Operations
-- ---------------------------------------------------------------------------

def line (t : Tables) (stage : StageKey) : Backlog Entry := (t.lines.get? stage).getD {}

def setLine (t : Tables) (stage : StageKey) (line : Backlog Entry) : Tables :=
  { t with lines := t.lines.insert stage line }

def setHolder (t : Tables) (stage : StageKey) (key : PromotionKey) : Tables :=
  { t with holders := t.holders.insert stage key }

def push (t : Tables) (stage : StageKey) (e : Entry) : Tables :=
  t.setLine stage ((t.line stage).push (Entry.discipline t.order) e).2

def enroll (t : Tables) (stage : StageKey) (e : Entry) : Admission × Tables :=
  match t.holders.get? stage with
  | none =>
    let line := ((t.line stage).remove (Entry.discipline t.order) e).2
    (.becameActive, (t.setLine stage line).setHolder stage e.key)
  | some holder => if holder = e.key then (.becameActive, t) else (.queued, t.push stage e)

def conclude (t : Tables) (stage : StageKey) (key : PromotionKey) : Bool × Tables :=
  if t.holders.get? stage = some key then (true, { t with holders := t.holders.erase stage })
  else (false, t)

def select {m : Type → Type} [Monad m] {ε : Type} (check : PromotionKey → m (Except ε Verdict))
    (t : Tables) (stage : StageKey) : m (Selection ε × Tables) :=
  if (t.holders.get? stage).isSome then pure (⟨.ok none, []⟩, t)
  else
    match t.lines.get? stage with
    | none => pure (⟨.ok none, []⟩, t)
    | some line => do
      let (s, left) ← Gate.selectFrom check line.items
      pure (s, t.setLine stage ⟨left⟩)

def claim (t : Tables) (stage : StageKey) (e : Entry) : Claim × Tables :=
  match t.holders.get? stage with
  | some holder =>
    if holder = e.key then (.activated, t) else (.activeElsewhere holder, t.push stage e)
  | none =>
    match (t.line stage).peek? with
    | none => (.activated, (t.setLine stage (t.line stage)).setHolder stage e.key)
    | some head =>
      if head.key = e.key then
        (.activated, (t.setLine stage (t.line stage).pop.2).setHolder stage e.key)
      else (.notNext head.key, t.push stage e)

def peek? (t : Tables) (stage : StageKey) : Option PromotionKey :=
  ((t.lines.get? stage).bind Backlog.peek?).map Entry.key

def takeFrom (t : Tables) (stage : StageKey)
    (take : Backlog Entry → Option Entry × Backlog Entry) : Option Entry × Tables :=
  match t.lines.get? stage with
  | none => (none, t)
  | some line => ((take line).1, t.setLine stage (take line).2)

def pop (t : Tables) (stage : StageKey) : Option PromotionKey × Tables :=
  let (first, t) := t.takeFrom stage Backlog.pop
  (first.map Entry.key, t)

def remove (t : Tables) (stage : StageKey) (key : PromotionKey) : Bool × Tables :=
  let (found, t) := t.takeFrom stage (·.removeFirst fun e => e.key == key)
  (found.isSome, t)

def stages (t : Tables) : List StageKey :=
  ((t.lines.keys ++ t.holders.keys).mergeSort fun a b => (compare a b).isLE).destutter (· ≠ ·)

open Gates (Call Reply Record) in
def perform (t : Tables) : Call → Reply × Tables
  | .enroll stage e => (.admission (t.enroll stage e).1, (t.enroll stage e).2)
  | .conclude stage key => (.flag (t.conclude stage key).1, (t.conclude stage key).2)
  | .select stage check start =>
    let answer := ((t.select check stage).run start).1
    (.selection answer.1, answer.2)
  | .claim stage e => (.claim (t.claim stage e).1, (t.claim stage e).2)
  | .peek stage => (.key (t.peek? stage), t)
  | .pop stage => (.key (t.pop stage).1, (t.pop stage).2)
  | .remove stage key => (.flag (t.remove stage key).1, (t.remove stage key).2)

def after (t : Tables) (calls : List Gates.Call) : Tables :=
  calls.foldl (fun t c => (t.perform c).2) t

def history (t : Tables) : List Gates.Call → List Gates.Record
  | [] => []
  | c :: calls => ⟨c, (t.perform c).1⟩ :: history (t.perform c).2 calls

-- ---------------------------------------------------------------------------
-- What the tables lay out
-- ---------------------------------------------------------------------------

/-- Tables that say of every stage who holds it and, if it has a gate, who waits there. -/
structure Lays (t : Tables) (gs : Gates) : Prop where
  order : t.order = gs.order
  holder : ∀ stage, t.holders.get? stage = (gs.gate stage).holder
  lines : ∀ stage, t.lines.get? stage = (gs.gate? stage).map Gate.waiting

variable {t t' : Tables} {gs : Gates} {stage other : StageKey} {g : Gate} {e : Entry}

theorem lays_start (order : Entry → Entry → Ordering) :
    ({ order } : Tables).Lays ({ order } : Gates) :=
  ⟨rfl, fun _ => rfl, fun _ => rfl⟩

@[simp] theorem get?_setLine (t : Tables) (stage other : StageKey) (line : Backlog Entry) :
    (t.setLine stage line).lines.get? other =
      if other = stage then some line else t.lines.get? other := by
  simp [setLine, SortedMap.get?_insert]

@[simp] theorem get?_setHolder (t : Tables) (stage other : StageKey) (key : PromotionKey) :
    (t.setHolder stage key).holders.get? other =
      if other = stage then some key else t.holders.get? other := by
  simp [setHolder, SortedMap.get?_insert]

@[simp] theorem holders_setLine (t : Tables) (stage : StageKey) (line : Backlog Entry) :
    (t.setLine stage line).holders = t.holders := rfl

@[simp] theorem lines_setHolder (t : Tables) (stage : StageKey) (key : PromotionKey) :
    (t.setHolder stage key).lines = t.lines := rfl

namespace Lays

theorem line (h : t.Lays gs) (stage : StageKey) : t.line stage = (gs.gate stage).waiting := by
  unfold Tables.line Gates.gate
  rw [h.lines]
  cases gs.gate? stage <;> rfl

theorem known_of_holder (h : t.Lays gs) {key : PromotionKey}
    (hh : t.holders.get? stage = some key) : ∃ g, gs.gate? stage = some g := by
  rw [h.holder] at hh
  cases hg : gs.gate? stage with
  | some g => exact ⟨g, rfl⟩
  | none => rw [Gates.gate_of_gate?_none hg] at hh; cases hh

theorem line_of_holder (h : t.Lays gs) {key : PromotionKey}
    (hh : t.holders.get? stage = some key) : (t.lines.get? stage).isSome := by
  obtain ⟨g, hg⟩ := h.known_of_holder hh
  simp [h.lines, hg]

theorem set (h : t.Lays gs) (order : t'.order = t.order)
    (holder : ∀ other, t'.holders.get? other =
      if other = stage then g.holder else t.holders.get? other)
    (lines : ∀ other, t'.lines.get? other =
      if other = stage then some g.waiting else t.lines.get? other) :
    t'.Lays (gs.set stage g) where
  order := order.trans h.order
  holder other := by
    rw [holder, h.holder, Gates.gate_set]
    split <;> rfl
  lines other := by
    rw [lines, h.lines]
    split
    · next ho => simp [Gates.gate?, Gates.set, ho]
    · next ho => simp [Gates.gate?, Gates.set, SortedMap.get?_insert_of_ne _ _ ho]

theorem same (h : t.Lays gs) (hg : gs.gate? stage = some g) : t.Lays (gs.set stage g) := by
  refine h.set rfl (fun other => ?_) fun other => ?_
  · split
    · next ho => rw [ho, h.holder, Gates.gate_of_gate?_some hg]
    · rfl
  · split
    · next ho => rw [ho, h.lines, hg]; rfl
    · rfl

theorem setLine (h : t.Lays gs) (holder : g.holder = t.holders.get? stage) :
    (t.setLine stage g.waiting).Lays (gs.set stage g) := by
  refine h.set rfl (fun other => ?_) fun other => by simp
  split
  · next ho => rw [ho, holder]; rfl
  · rfl

theorem setHolder (h : t.Lays gs) (line : Backlog Entry) (key : PromotionKey) :
    ((t.setLine stage line).setHolder stage key).Lays (gs.set stage ⟨some key, line⟩) :=
  h.set rfl (fun other => by simp) fun other => by simp

theorem push (h : t.Lays gs) (stage : StageKey) (e : Entry) :
    (t.push stage e).Lays (gs.set stage ((gs.gate stage).push gs.order e)) := by
  unfold Tables.push
  rw [h.line, h.order]
  exact h.setLine (g := (gs.gate stage).push gs.order e) (h.holder stage).symm

-- ---------------------------------------------------------------------------
-- One call
-- ---------------------------------------------------------------------------

theorem enroll (h : t.Lays gs) (stage : StageKey) (e : Entry) :
    (t.enroll stage e).1 = (gs.enroll stage e).1 ∧
      (t.enroll stage e).2.Lays (gs.enroll stage e).2 := by
  unfold Tables.enroll Gates.enroll
  cases hh : t.holders.get? stage with
  | none =>
    rw [Gate.enroll_of_idle ((h.holder stage).symm.trans hh), h.line, h.order]
    exact ⟨rfl, h.setHolder _ e.key⟩
  | some holder =>
    have hgate : (gs.gate stage).holder = some holder := (h.holder stage).symm.trans hh
    by_cases hk : holder = e.key
    · subst hk
      obtain ⟨g, hg⟩ := h.known_of_holder hh
      rw [Gate.enroll_of_holder hgate, Gates.gate_of_gate?_some hg]
      simpa using h.same hg
    · rw [Gate.enroll_of_other hgate hk]
      simpa [hk] using h.push stage e

theorem conclude (h : t.Lays gs) (stage : StageKey) (key : PromotionKey) :
    (t.conclude stage key).1 = (gs.conclude stage key).1 ∧
      (t.conclude stage key).2.Lays (gs.conclude stage key).2 := by
  unfold Tables.conclude Gates.conclude Gates.onKnown
  split
  · next hh =>
    obtain ⟨g, hg⟩ := h.known_of_holder hh
    have hgate : g.holder = some key := by
      rw [← Gates.gate_of_gate?_some hg, ← h.holder, hh]
    simp only [hg, Gate.conclude_of_holder hgate, true_and]
    refine h.set rfl (fun other => by simp [SortedMap.get?_erase]) fun other => ?_
    split
    · next ho => simp [ho, h.lines, hg]
    · rfl
  · next hh =>
    rw [h.holder] at hh
    cases hg : gs.gate? stage with
    | none => exact ⟨rfl, h⟩
    | some g =>
      rw [Gates.gate_of_gate?_some hg] at hh
      simpa [Gate.conclude_of_not_holder hh] using h.same hg

theorem claim (h : t.Lays gs) (stage : StageKey) (e : Entry) :
    (t.claim stage e).1 = (gs.claim stage e).1 ∧
      (t.claim stage e).2.Lays (gs.claim stage e).2 := by
  unfold Tables.claim Gates.claim Gate.claim
  rw [← h.holder]
  cases hh : t.holders.get? stage with
  | some holder =>
    by_cases hk : holder = e.key
    · obtain ⟨g, hg⟩ := h.known_of_holder hh
      simpa [hk, Gates.gate_of_gate?_some hg] using h.same hg
    · simpa [hk] using h.push stage e
  | none =>
    rw [h.line]
    cases hp : (gs.gate stage).waiting.peek? with
    | none => simpa using h.setHolder (gs.gate stage).waiting e.key
    | some head =>
      by_cases hk : head.key = e.key
      · simpa [hk] using h.setHolder (gs.gate stage).waiting.pop.2 e.key
      · simpa [hk] using h.push stage e

theorem select {σ ε : Type} (h : t.Lays gs) (check : PromotionKey → StateM σ (Except ε Verdict))
    (stage : StageKey) (start : σ) :
    ((t.select check stage).run start).1.1 = ((gs.select check stage).run start).1.1 ∧
      ((t.select check stage).run start).1.2.Lays ((gs.select check stage).run start).1.2 := by
  have hholder := h.holder stage
  have hline := h.lines stage
  unfold Tables.select Gates.select
  cases hg : gs.gate? stage with
  | none =>
    rw [Gates.gate_of_gate?_none hg] at hholder
    simp only [hholder, hline, hg]
    exact ⟨rfl, h⟩
  | some g =>
    rw [Gates.gate_of_gate?_some hg] at hholder
    rw [hg] at hline
    simp only [hholder, hline, Option.map_some, Gate.select]
    split
    · exact ⟨rfl, h.same hg⟩
    · refine ⟨rfl, ?_⟩
      show (t.setLine stage ⟨((Gate.selectFrom check g.waiting.items).run start).1.2⟩).Lays
        (gs.set stage ⟨g.holder, ⟨((Gate.selectFrom check g.waiting.items).run start).1.2⟩⟩)
      exact h.setLine (g := ⟨g.holder, _⟩) hholder.symm

theorem peek (h : t.Lays gs) (stage : StageKey) : t.peek? stage = gs.peek? stage := by
  unfold Tables.peek? Gates.peek? Gates.gate
  rw [h.lines]
  cases gs.gate? stage <;> rfl

theorem takeFrom (h : t.Lays gs) (stage : StageKey)
    (take : Backlog Entry → Option Entry × Backlog Entry) {α : Type} (absent : α)
    (answer : Option Entry → α) (hnone : answer none = absent) :
    answer (t.takeFrom stage take).1 = (gs.onKnown stage absent fun g =>
        (answer (take g.waiting).1, { g with waiting := (take g.waiting).2 })).1 ∧
      (t.takeFrom stage take).2.Lays (gs.onKnown stage absent fun g =>
        (answer (take g.waiting).1, { g with waiting := (take g.waiting).2 })).2 := by
  have hline := h.lines stage
  unfold Tables.takeFrom Gates.onKnown
  cases hg : gs.gate? stage with
  | none =>
    rw [hg] at hline
    simp only [hline, Option.map_none]
    exact ⟨hnone, h⟩
  | some g =>
    rw [hg] at hline
    simp only [hline, Option.map_some, true_and]
    refine h.setLine (g := { g with waiting := (take g.waiting).2 }) ?_
    rw [h.holder, Gates.gate_of_gate?_some hg]

theorem perform (h : t.Lays gs) (c : Gates.Call) :
    (t.perform c).1 = (gs.perform c).1 ∧ (t.perform c).2.Lays (gs.perform c).2 := by
  cases c with
  | enroll stage e => exact (h.enroll stage e).imp_left (congrArg _)
  | conclude stage key => exact (h.conclude stage key).imp_left (congrArg _)
  | select stage check start => exact (h.select check stage start).imp_left (congrArg _)
  | claim stage e => exact (h.claim stage e).imp_left (congrArg _)
  | peek stage => exact ⟨congrArg _ (h.peek stage), h⟩
  | pop stage =>
    have hpop := h.takeFrom stage Backlog.pop none (Option.map Entry.key) rfl
    exact hpop.imp_left (congrArg _)
  | remove stage key =>
    have hremove := h.takeFrom stage (·.removeFirst fun e => e.key == key) false Option.isSome rfl
    exact hremove.imp_left (congrArg _)

-- ---------------------------------------------------------------------------
-- Sequences of calls
-- ---------------------------------------------------------------------------

theorem after (h : t.Lays gs) (calls : List Gates.Call) : (t.after calls).Lays (gs.after calls) := by
  induction calls generalizing t gs with
  | nil => exact h
  | cons c calls ih => exact ih (h.perform c).2

theorem history (h : t.Lays gs) (calls : List Gates.Call) : t.history calls = gs.history calls := by
  induction calls generalizing t gs with
  | nil => rfl
  | cons c calls ih =>
    obtain ⟨hreply, hnext⟩ := h.perform c
    simp only [Tables.history, Gates.history, hreply, ih hnext]

end Lays

-- ---------------------------------------------------------------------------
-- The stages
-- ---------------------------------------------------------------------------

theorem mem_destutter_iff {α : Type} [DecidableEq α] {x : α} {xs : List α} :
    x ∈ xs.destutter (· ≠ ·) ↔ x ∈ xs := by
  have go (a : α) (xs : List α) : x ∈ xs.destutter' (· ≠ ·) a ↔ x = a ∨ x ∈ xs := by
    induction xs generalizing a with
    | nil => simp
    | cons b xs ih =>
      by_cases hab : a = b
      · subst hab
        simp [ih]
      · simp [hab, ih]
  cases xs with
  | nil => simp
  | cons a xs => simp [List.destutter_cons', go]

theorem sorted_stages (t : Tables) : t.stages.Pairwise fun a b => compare a b = .lt := by
  let le : StageKey → StageKey → Bool := fun a b => (compare a b).isLE
  have htotal (a b : StageKey) : (le a b || le b a) = true := by
    have hswap : compare b a = (compare a b).swap := Std.OrientedCmp.eq_swap
    simp only [le, hswap]
    cases compare a b <;> rfl
  have hsorted : ((t.lines.keys ++ t.holders.keys).mergeSort le).Pairwise (le · ·) :=
    List.pairwise_mergeSort (fun _ _ _ => Std.TransCmp.isLE_trans) htotal _
  have hstages : t.stages.Pairwise (le · ·) := hsorted.sublist (List.destutter_sublist _ _)
  have hchain : t.stages.IsChain (· ≠ ·) := List.isChain_destutter _ _
  have hlt : t.stages.IsChain fun a b => compare a b = .lt := by
    rw [List.isChain_iff_getElem] at hchain ⊢
    intro i hi
    have hle := List.pairwise_iff_getElem.mp hstages i (i + 1) (by omega) hi (by omega)
    have hne := hchain i hi
    cases hc : compare t.stages[i] t.stages[i + 1] with
    | lt => rfl
    | eq => exact absurd (Std.LawfulEqOrd.eq_of_compare hc) hne
    | gt => simp [le, hc] at hle
  have : Trans (fun a b : StageKey => compare a b = .lt) (fun a b => compare a b = .lt)
      (fun a b => compare a b = .lt) := ⟨Std.TransCmp.lt_trans⟩
  exact hlt.pairwise

theorem Lays.stages (h : t.Lays gs) : t.stages = gs.stages := by
  have hmem (stage : StageKey) : stage ∈ t.stages ↔ stage ∈ gs.stages := by
    unfold Tables.stages
    rw [mem_destutter_iff, List.mem_mergeSort, List.mem_append, SortedMap.mem_keys_iff,
      SortedMap.mem_keys_iff, Gates.mem_stages_iff, h.lines, h.holder]
    constructor
    · rintro (hl | hh)
      · simpa using hl
      · obtain ⟨key, hk⟩ := Option.isSome_iff_exists.mp hh
        obtain ⟨g, hg⟩ := h.known_of_holder ((h.holder stage).trans hk)
        simp [hg]
    · exact fun hg => .inl (by simpa using hg)
  have : Std.Irrefl (fun a b : StageKey => compare a b = .lt) :=
    ⟨fun _ h => by simp [Std.ReflCmp.compare_self] at h⟩
  have : Std.Antisymm (fun a b : StageKey => compare a b = .lt) :=
    ⟨fun _ _ hab hba => absurd hba (Std.OrientedCmp.not_lt_of_lt hab)⟩
  exact t.sorted_stages.eq_of_mem_iff gs.byStage.sorted_keys hmem

end Tables

end StageGate
