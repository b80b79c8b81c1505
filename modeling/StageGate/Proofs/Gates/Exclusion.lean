import Mathlib.Data.List.Induction
import StageGate.Proofs.Gates.Calls

/-!
# One promotion at a time

A stage is granted to a promotion by an arrival that makes it active or by a claim that succeeds,
and it is given back by a conclusion that says so. Main statement: `exclusive_grants`. Between
grants of a stage to two promotions the first of them gives it back, and the holder of a stage is
at any time the promotion of the last grant, unless the stage was given back since.
-/

namespace StageGate.Gates

namespace Record

def granted? (stage : StageKey) : Record → Option PromotionKey
  | ⟨.enroll s e, .admission .becameActive⟩ => if s = stage then some e.key else none
  | ⟨.claim s e, .claim .activated⟩ => if s = stage then some e.key else none
  | _ => none

def released? (stage : StageKey) : Record → Option PromotionKey
  | ⟨.conclude s key, .flag true⟩ => if s = stage then some key else none
  | _ => none

end Record

-- ---------------------------------------------------------------------------
-- One call
-- ---------------------------------------------------------------------------

/-- What a call can do to the holder of a stage: it grants the stage, which was idle or held by the
same promotion; or it takes the stage from its holder; or it leaves the holder as it is. -/
inductive Turn (stage : StageKey) (r : Record) (holder holder' : Option PromotionKey) : Prop where
  | granted (key : PromotionKey) (grant : r.granted? stage = some key)
      (kept : r.released? stage = none) (free : holder = none ∨ holder = some key)
      (next : holder' = some key)
  | released (key : PromotionKey) (grant : r.granted? stage = none)
      (release : r.released? stage = some key) (held : holder = some key) (next : holder' = none)
  | unchanged (grant : r.granted? stage = none) (kept : r.released? stage = none)
      (next : holder' = holder)

theorem turn_enroll (gs : Gates) (s : StageKey) (e : Entry) (stage : StageKey) :
    Turn stage ⟨.enroll s e, (gs.perform (.enroll s e)).1⟩ (gs.active? stage)
      ((gs.perform (.enroll s e)).2.active? stage) := by
  show Turn stage ⟨.enroll s e, .admission ((gs.gate s).enroll gs.order e).1⟩ (gs.gate stage).holder
    ((gs.enroll s e).2.gate stage).holder
  rw [gate_enroll]
  by_cases hs : s = stage
  · subst hs
    rw [if_pos rfl]
    cases hg : (gs.gate s).holder with
    | none =>
      rw [Gate.enroll_of_idle hg]
      exact .granted e.key (by simp [Record.granted?]) rfl (.inl rfl) rfl
    | some k =>
      by_cases hk : k = e.key
      · subst hk
        rw [Gate.enroll_of_holder hg]
        exact .granted e.key (by simp [Record.granted?]) rfl (.inr rfl) hg
      · rw [Gate.enroll_of_other hg hk]
        exact .unchanged rfl rfl hg
  · rw [if_neg (Ne.symm hs)]
    exact .unchanged
      (by cases ((gs.gate s).enroll gs.order e).1 <;> simp [Record.granted?, hs]) rfl rfl

theorem turn_claim (gs : Gates) (s : StageKey) (e : Entry) (stage : StageKey) :
    Turn stage ⟨.claim s e, (gs.perform (.claim s e)).1⟩ (gs.active? stage)
      ((gs.perform (.claim s e)).2.active? stage) := by
  show Turn stage ⟨.claim s e, .claim ((gs.gate s).claim gs.order e).1⟩ (gs.gate stage).holder
    ((gs.claim s e).2.gate stage).holder
  rw [gate_claim]
  by_cases hs : s = stage
  · subst hs
    rw [if_pos rfl]
    rcases Gate.claim_cases gs.order (gs.gate s) e with
      ⟨hc, hholder, hfree⟩ | ⟨a, hg, -, hc⟩ | ⟨head, hg, -, -, hc⟩
    · rw [hc]
      exact .granted e.key (by simp [Record.granted?]) rfl hfree hholder
    · rw [hc]
      exact .unchanged rfl rfl rfl
    · rw [hc]
      exact .unchanged rfl rfl rfl
  · rw [if_neg (Ne.symm hs)]
    exact .unchanged
      (by cases ((gs.gate s).claim gs.order e).1 <;> simp [Record.granted?, hs]) rfl rfl

theorem turn_conclude (gs : Gates) (s : StageKey) (key : PromotionKey) (stage : StageKey) :
    Turn stage ⟨.conclude s key, (gs.perform (.conclude s key)).1⟩ (gs.active? stage)
      ((gs.perform (.conclude s key)).2.active? stage) := by
  show Turn stage ⟨.conclude s key, .flag (gs.conclude s key).1⟩ (gs.gate stage).holder
    ((gs.conclude s key).2.gate stage).holder
  rw [gate_conclude, conclude_fst]
  by_cases hs : s = stage
  · subst hs
    rw [if_pos rfl]
    by_cases hk : (gs.gate s).holder = some key
    · rw [Gate.conclude_of_holder hk]
      exact .released key rfl (by simp [Record.released?]) hk rfl
    · rw [Gate.conclude_of_not_holder hk]
      exact .unchanged rfl rfl rfl
  · rw [if_neg (Ne.symm hs)]
    exact .unchanged rfl (by cases ((gs.gate s).conclude key).1 <;> simp [Record.released?, hs]) rfl

theorem turn_perform (gs : Gates) (c : Call) (stage : StageKey) :
    Turn stage ⟨c, (gs.perform c).1⟩ (gs.active? stage) ((gs.perform c).2.active? stage) := by
  cases c with
  | enroll s e => exact turn_enroll gs s e stage
  | claim s e => exact turn_claim gs s e stage
  | conclude s key => exact turn_conclude gs s key stage
  | select s check start => exact .unchanged rfl rfl (active?_select check start)
  | peek s => exact .unchanged rfl rfl rfl
  | pop s =>
    refine .unchanged rfl rfl ?_
    show ((gs.pop s).2.gate stage).holder = (gs.gate stage).holder
    rw [gate_pop]
    split
    · next h => rw [h]; rfl
    · rfl
  | remove s key =>
    refine .unchanged rfl rfl ?_
    show ((gs.remove s key).2.gate stage).holder = (gs.gate stage).holder
    rw [gate_remove]
    split
    · next h => rw [h]; rfl
    · rfl

-- ---------------------------------------------------------------------------
-- Histories
-- ---------------------------------------------------------------------------

/-- While a promotion does not give the stage back, no other one is granted it. -/
theorem released_before_granted {gs : Gates} {calls : List Call} {between rest : List Record}
    {second : Record} (held : gs.active? stage = some p)
    (h : gs.history calls = between ++ second :: rest)
    (hq : second.granted? stage = some q) (hne : p ≠ q) :
    ∃ r ∈ between, r.released? stage = some p := by
  induction between generalizing gs calls with
  | nil =>
    cases calls with
    | nil => cases h
    | cons c calls =>
      obtain ⟨rfl, -⟩ := List.cons.inj h
      exfalso
      cases turn_perform gs c stage with
      | granted key grant kept free next =>
        rw [grant] at hq
        rw [held] at free
        rcases free with free | free
        · cases free
        · exact hne ((Option.some.inj free).trans (Option.some.inj hq))
      | released key grant => rw [grant] at hq; cases hq
      | unchanged grant => rw [grant] at hq; cases hq
  | cons r between ih =>
    cases calls with
    | nil => cases h
    | cons c calls =>
      obtain ⟨rfl, hrest⟩ := List.cons.inj h
      have later (hact : (gs.perform c).2.active? stage = some p) :
          ∃ r ∈ (⟨c, (gs.perform c).1⟩ : Record) :: between, r.released? stage = some p :=
        let ⟨r, hr, hrel⟩ := ih hact hrest
        ⟨r, List.mem_cons_of_mem _ hr, hrel⟩
      cases turn_perform gs c stage with
      | granted key grant kept free next =>
        rw [held] at free
        rcases free with free | free
        · cases free
        · exact later (next.trans free.symm)
      | released key grant release was next =>
        rw [held] at was
        exact ⟨_, List.mem_cons_self, release.trans was.symm⟩
      | unchanged grant kept next => exact later (next.trans held)

/-- A promotion holds a stage if it was granted it and since then the stage was neither granted nor
given back. -/
def LastGranted (stage : StageKey) (key : PromotionKey) (records : List Record) : Prop :=
  ∃ before grant since, records = before ++ grant :: since ∧ grant.granted? stage = some key ∧
    ∀ r ∈ since, r.granted? stage = none ∧ r.released? stage = none

theorem lastGranted_concat : LastGranted stage key (records ++ [r]) ↔
    r.granted? stage = some key ∨
      LastGranted stage key records ∧ r.granted? stage = none ∧ r.released? stage = none := by
  constructor
  · rintro ⟨before, grant, since, h, hg, hs⟩
    rcases List.eq_nil_or_concat since with rfl | ⟨since, last, rfl⟩
    · obtain ⟨-, h⟩ := List.append_inj' h rfl
      exact .inl ((List.cons.inj h).1 ▸ hg)
    · have hl : records ++ [r] = (before ++ grant :: since) ++ [last] := by simpa using h
      obtain ⟨rfl, hlast⟩ := List.append_inj' hl rfl
      obtain ⟨rfl, -⟩ := List.cons.inj hlast
      exact .inr ⟨⟨before, grant, since, rfl, hg, fun x hx => hs x (by simp [hx])⟩, hs r (by simp)⟩
  · rintro (h | ⟨⟨before, grant, since, rfl, hg, hs⟩, hr⟩)
    · exact ⟨records, r, [], rfl, h, by simp⟩
    · refine ⟨before, grant, since ++ [r], by simp, hg, fun x hx => ?_⟩
      rcases List.mem_append.mp hx with hx | hx
      · exact hs x hx
      · rw [List.mem_singleton.mp hx]; exact hr

theorem active?_after_iff {gs : Gates} (idle : gs.active? stage = none) (calls : List Call) :
    (gs.after calls).active? stage = some key ↔ LastGranted stage key (gs.history calls) := by
  induction calls using List.reverseRecOn generalizing key with
  | nil =>
    simp only [after, List.foldl_nil, idle, reduceCtorEq, false_iff]
    rintro ⟨before, grant, since, h, -⟩
    simp [history] at h
  | append_singleton calls c ih =>
    rw [after_concat, history_append, history, history, lastGranted_concat]
    cases turn_perform (gs.after calls) c stage with
    | granted k grant kept free next => rw [next, grant]; simp
    | released k grant release held next => rw [next, grant, release]; simp
    | unchanged grant kept next => rw [next, grant, kept, ih]; simp

/-- From gates at which nobody stands, under any order and for any sequence of calls: between grants
of a stage to two promotions the first of them gave the stage back; and after any part of the calls
the holder of a stage is the promotion that was granted it last, unless it was given back since. -/
theorem exclusive_grants (order : Entry → Entry → Ordering) (calls : List Call) (stage : StageKey) :
    (∀ before first between second rest p q,
      ({ order } : Gates).history calls = before ++ first :: (between ++ second :: rest) →
      first.granted? stage = some p → second.granted? stage = some q → p ≠ q →
      ∃ r ∈ between, r.released? stage = some p) ∧
    ∀ soFar, soFar <+: calls → ∀ p, (({ order } : Gates).after soFar).active? stage = some p ↔
      LastGranted stage p (({ order } : Gates).history soFar) := by
  refine ⟨?_, fun soFar _ p => active?_after_iff rfl soFar⟩
  intro before first between second rest p q h hp hq hne
  obtain ⟨gs, left, hleft⟩ := history_split h
  cases left with
  | nil => cases hleft
  | cons c left =>
    obtain ⟨rfl, hrest⟩ := List.cons.inj hleft
    have held : (gs.perform c).2.active? stage = some p := by
      cases turn_perform gs c stage with
      | granted key grant kept free next => exact next.trans (grant.symm.trans hp)
      | released key grant => rw [grant] at hp; cases hp
      | unchanged grant => rw [grant] at hp; cases hp
    exact released_before_granted held hrest hq hne

def handover : List Call :=
  [.enroll ⟨"ns", "test"⟩ ⟨⟨"ns", "a"⟩, ⟨0, 0⟩⟩, .enroll ⟨"ns", "test"⟩ ⟨⟨"ns", "b"⟩, ⟨1, 0⟩⟩,
    .conclude ⟨"ns", "test"⟩ ⟨"ns", "a"⟩, .claim ⟨"ns", "test"⟩ ⟨⟨"ns", "b"⟩, ⟨1, 0⟩⟩]

theorem exclusive_grants_handover : ∃ first between second,
    ({} : Gates).history handover = first :: (between ++ [second]) ∧
      first.granted? ⟨"ns", "test"⟩ = some ⟨"ns", "a"⟩ ∧
      second.granted? ⟨"ns", "test"⟩ = some ⟨"ns", "b"⟩ ∧
      (∃ r ∈ between, r.released? ⟨"ns", "test"⟩ = some ⟨"ns", "a"⟩) ∧
      LastGranted ⟨"ns", "test"⟩ ⟨"ns", "b"⟩ (({} : Gates).history handover) := by
  have h := exclusive_grants Entry.oldestFirst handover ⟨"ns", "test"⟩
  refine ⟨_, [_, _], _, rfl, rfl, rfl, ?_, ?_⟩
  · exact h.1 [] _ _ _ [] _ ⟨"ns", "b"⟩ rfl rfl rfl (by decide)
  · exact (h.2 handover (List.prefix_refl _) ⟨"ns", "b"⟩).mp rfl

end StageGate.Gates
