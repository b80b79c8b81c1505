import StageGate.Proofs.Gates.Ordered

/-!
# Claims and age

A line is by age, and at an idle stage a claim is granted to whoever stands first in it. A promotion
that is not in line yet joins it without being compared, so one that is older than all who wait is
put off in favour of a younger one. Main statement: `claim_by_age_iff`. That case apart, a claim is
put off only behind an older promotion, and succeeds where no older one waits.
-/

namespace StageGate

namespace Entry

def Precedes (a b : Entry) : Prop := oldestFirst a b = .lt

instance (a b : Entry) : Decidable (a.Precedes b) := inferInstanceAs (Decidable (_ = _))

/-- Everybody in line is younger. An entry that is in line itself overtakes nobody. -/
structure Overtakes (e : Entry) (line : List Entry) : Prop where
  waiting : line ≠ []
  older : ∀ x ∈ line, e.Precedes x

variable {a b c e head x : Entry} {line rest : List Entry}

theorem not_precedes_self (a : Entry) : ¬ a.Precedes a := by
  simp [Precedes, Std.ReflCmp.compare_self]

theorem Precedes.trans (h : a.Precedes b) (h' : b.Precedes c) : a.Precedes c :=
  Std.TransCmp.lt_trans h h'

theorem Precedes.asymm (h : a.Precedes b) : ¬ b.Precedes a := fun h' =>
  not_precedes_self a (h.trans h')

theorem precedes_or_precedes (h : a.key ≠ b.key) : a.Precedes b ∨ b.Precedes a := by
  cases hab : oldestFirst a b with
  | lt => exact .inl hab
  | eq => exact absurd (key_eq_of_oldestFirst hab) h
  | gt => exact .inr (Std.OrientedCmp.lt_of_gt hab)

-- ---------------------------------------------------------------------------
-- Lines that rise
-- ---------------------------------------------------------------------------

theorem not_precedes_head (rising : (head :: rest).Pairwise Precedes) (hx : x ∈ head :: rest) :
    ¬ x.Precedes head := by
  rcases List.mem_cons.mp hx with rfl | hx
  · exact not_precedes_self x
  · exact ((List.pairwise_cons.mp rising).1 x hx).asymm

theorem eq_head (rising : (head :: rest).Pairwise Precedes) (hx : x ∈ head :: rest)
    (first : ∀ y ∈ head :: rest, ¬ y.Precedes x) : x = head := by
  rcases List.mem_cons.mp hx with rfl | hx
  · rfl
  · exact absurd ((List.pairwise_cons.mp rising).1 x hx) (first head List.mem_cons_self)

theorem overtakes_of_precedes_head (rising : (head :: rest).Pairwise Precedes)
    (h : e.Precedes head) : e.Overtakes (head :: rest) where
  waiting := List.cons_ne_nil _ _
  older x hx := by
    rcases List.mem_cons.mp hx with rfl | hx
    · exact h
    · exact h.trans ((List.pairwise_cons.mp rising).1 x hx)

end Entry

/-- The answer to a claim at an idle stage where claims go by age: it is put off only behind an older
promotion in line, and it succeeds where there is none. -/
structure Claim.ByAge (line : List Entry) (e : Entry) (answer : Claim) : Prop where
  behind : ∀ key, answer = .notNext key → ∃ x ∈ line, x.key = key ∧ x.Precedes e
  first : (∀ x ∈ line, ¬ x.Precedes e) → answer = .activated

namespace Gate

open Entry (not_precedes_self precedes_or_precedes not_precedes_head eq_head
  overtakes_of_precedes_head)

variable {g : Gate} {e head : Entry} {rest : List Entry} {order : Entry → Entry → Ordering}
  {key : PromotionKey}

theorem claim_of_empty (idle : g.holder = none) (hline : g.waiting.items = []) :
    (g.claim order e).1 = .activated := by
  simp [claim, idle, Backlog.peek?, hline]

theorem claim_of_head (idle : g.holder = none) (hline : g.waiting.items = head :: rest) :
    (g.claim order e).1 = if head.key = e.key then .activated else .notNext head.key := by
  simp only [claim, idle, Backlog.peek?, hline, List.head?_cons]
  split <;> rfl

section
variable (idle : g.holder = none) (rising : g.waiting.items.Pairwise Entry.Precedes)
  (copy : ∀ x ∈ g.waiting.items, x.key = e.key → x.created = e.created)
include idle rising copy

theorem claim_activated_iff : (g.claim order e).1 = .activated ↔ g.waiting.items = [] ∨
    e ∈ g.waiting.items ∧ ∀ x ∈ g.waiting.items, ¬ x.Precedes e := by
  cases hline : g.waiting.items with
  | nil => simp [claim_of_empty idle hline]
  | cons head rest =>
    rw [hline] at rising copy
    rw [claim_of_head idle hline]
    constructor
    · intro h
      split at h
      · next hk =>
        obtain rfl : head = e := by
          cases head; cases e; cases hk; cases copy _ List.mem_cons_self rfl; rfl
        exact .inr ⟨List.mem_cons_self, fun x hx => not_precedes_head rising hx⟩
      · cases h
    · rintro (h | ⟨hmem, hfirst⟩)
      · cases h
      · rw [eq_head rising hmem hfirst, if_pos rfl]

theorem claim_notNext_iff : (g.claim order e).1 = .notNext key ↔ ∃ head ∈ g.waiting.items,
    head.key = key ∧ (∀ x ∈ g.waiting.items, ¬ x.Precedes head) ∧
      (head.Precedes e ∨ e.Overtakes g.waiting.items) := by
  cases hline : g.waiting.items with
  | nil => simp [claim_of_empty idle hline]
  | cons head rest =>
    rw [hline] at rising copy
    rw [claim_of_head idle hline]
    constructor
    · intro h
      split at h
      · cases h
      · next hk =>
        cases h
        refine ⟨head, List.mem_cons_self, rfl, fun x hx => not_precedes_head rising hx, ?_⟩
        exact (precedes_or_precedes hk).imp_right (overtakes_of_precedes_head rising)
    · rintro ⟨x, hx, rfl, hfirst, hahead⟩
      obtain rfl := eq_head rising hx hfirst
      refine if_neg fun hk => ?_
      obtain rfl : x = e := by
        cases x; cases e; cases hk; cases copy _ hx rfl; rfl
      rcases hahead with h | h
      · exact not_precedes_self x h
      · exact not_precedes_self x (h.older x hx)

theorem claim_byAge_iff : (g.claim order e).1.ByAge g.waiting.items e ↔
    ¬ e.Overtakes g.waiting.items := by
  constructor
  · intro h hover
    have hactive := h.first fun x hx => (hover.older x hx).asymm
    rcases (claim_activated_iff idle rising copy).mp hactive with hline | ⟨hmem, -⟩
    · exact hover.waiting hline
    · exact not_precedes_self e (hover.older e hmem)
  · intro hover
    refine ⟨fun key h => ?_, fun hfirst => ?_⟩
    · obtain ⟨head, hmem, hk, -, h⟩ := (claim_notNext_iff idle rising copy).mp h
      exact ⟨head, hmem, hk, h.resolve_right hover⟩
    · cases hline : g.waiting.items with
      | nil => exact claim_of_empty idle hline
      | cons head rest =>
        rw [claim_of_head idle hline]
        rw [hline] at rising hover hfirst
        refine if_pos (Decidable.byContradiction fun hk => ?_)
        rcases precedes_or_precedes hk with h | h
        · exact hfirst head List.mem_cons_self h
        · exact hover (overtakes_of_precedes_head rising h)

end

end Gate

namespace Gates

/-- Gates with the oldest promotion first, after any calls, and a claim at an idle stage by an entry
that is as old as its copy in line, if it has one. The claim succeeds exactly where nobody waits or
the entry is the first in line itself. It is put off exactly for the first in line, who is older than
the entry or is overtaken by it together with the rest of the line. So claims go by age except for
the entries that overtake a line. -/
theorem claim_by_age_iff (calls : List Call) (stage : StageKey) (e : Entry) :
    let gs := ({} : Gates).after calls
    let line := (gs.gate stage).waiting.items
    let answer := (gs.claim stage e).1
    gs.active? stage = none → (∀ x ∈ line, x.key = e.key → x.created = e.created) →
      (answer = .activated ↔ line = [] ∨ e ∈ line ∧ ∀ x ∈ line, ¬ x.Precedes e) ∧
      (∀ key, answer = .notNext key ↔ ∃ head ∈ line, head.key = key ∧
        (∀ x ∈ line, ¬ x.Precedes head) ∧ (head.Precedes e ∨ e.Overtakes line)) ∧
      (answer.ByAge line e ↔ ¬ e.Overtakes line) := by
  intro gs line answer idle copy
  have rising : line.Pairwise Entry.Precedes :=
    Gate.rising ((distinct_start Entry.oldestFirst).after calls stage)
      (forall_gate_after (Gate.kept_inOrder Entry.oldestFirst) (fun _ => .nil) calls stage)
  exact ⟨Gate.claim_activated_iff idle rising copy,
    fun key => Gate.claim_notNext_iff idle rising copy, Gate.claim_byAge_iff idle rising copy⟩

namespace Sample

def prod : StageKey := ⟨"ns", "prod"⟩

def entry (name : String) (seconds : Int) : Entry := ⟨⟨"ns", name⟩, ⟨seconds, 0⟩⟩

def freed : List Call :=
  [.enroll prod (entry "a" 0), .enroll prod (entry "d" 4), .enroll prod (entry "b" 2),
    .conclude prod ⟨"ns", "a"⟩]

end Sample

open Sample

theorem claim_by_age_sample :
    let gs := ({} : Gates).after freed
    let line := (gs.gate prod).waiting.items
    gs.active? prod = none ∧ (∀ x ∈ line, x.key = (entry "c" 3).key → x.created = ⟨3, 0⟩) ∧
    line = [entry "b" 2, entry "d" 4] ∧ (gs.claim prod (entry "c" 3)).1.ByAge line (entry "c" 3) ∧
    (gs.claim prod (entry "c" 3)).1 = .notNext ⟨"ns", "b"⟩ := by
  have hidle : (({} : Gates).after freed).active? prod = none := by decide +kernel
  have hline : ((({} : Gates).after freed).gate prod).waiting.items =
      [entry "b" 2, entry "d" 4] := by decide +kernel
  have hcopy : ∀ x ∈ ((({} : Gates).after freed).gate prod).waiting.items,
      x.key = (entry "c" 3).key → x.created = ⟨3, 0⟩ := by decide +kernel
  obtain ⟨-, hnext, hage⟩ := claim_by_age_iff freed prod (entry "c" 3) hidle hcopy
  have hbehind : (entry "b" 2).Precedes (entry "c" 3) := by decide +kernel
  refine ⟨hidle, hcopy, hline, hage.mpr fun h => ?_, (hnext _).mpr ?_⟩
  · rw [hline] at h
    exact hbehind.asymm (h.older _ List.mem_cons_self)
  · rw [hline]
    exact ⟨entry "b" 2, List.mem_cons_self, rfl, by decide +kernel, .inl hbehind⟩

/-- Both who wait are younger, and yet the claim is put off for one of them. -/
theorem overtaking_claim_put_off :
    let gs := ({} : Gates).after freed
    let line := (gs.gate prod).waiting.items
    gs.active? prod = none ∧ (∀ x ∈ line, x.key ≠ (entry "c" 1).key) ∧
    (∀ x ∈ line, (entry "c" 1).Precedes x) ∧
    (gs.claim prod (entry "c" 1)).1 = .notNext ⟨"ns", "b"⟩ ∧
    ¬ (gs.claim prod (entry "c" 1)).1.ByAge line (entry "c" 1) := by
  have younger : ∀ x ∈ ((({} : Gates).after freed).gate prod).waiting.items,
      (entry "c" 1).Precedes x := by decide +kernel
  have hanswer : ((({} : Gates).after freed).claim prod (entry "c" 1)).1 = .notNext ⟨"ns", "b"⟩ := by
    decide +kernel
  refine ⟨by decide +kernel, by decide +kernel, younger, hanswer, fun h => ?_⟩
  obtain ⟨x, hx, -, hbefore⟩ := h.behind _ hanswer
  exact hbefore.asymm (younger x hx)

end Gates

end StageGate
