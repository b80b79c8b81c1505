import StageGate.Gates

/-!
# What the operations do to the gates

For one gate: who holds it after an operation, and who stands at it, as its holder or in its line.
For the gates of all stages: an operation acts on the gate of its own stage and leaves the others as
they were. Later proofs cite these facts and do not open the operations.
-/

namespace StageGate

namespace Gate

variable {order : Entry → Entry → Ordering} {g : Gate} {e : Entry} {k : PromotionKey}

def Stands (g : Gate) (k : PromotionKey) : Prop := g.holder = some k ∨ k ∈ g.pending

theorem not_stands_empty : ¬ ({} : Gate).Stands k := by
  rintro (h | h)
  · cases h
  · simp [pending] at h

-- ---------------------------------------------------------------------------
-- The line
-- ---------------------------------------------------------------------------

theorem mem_pending : k ∈ g.pending ↔ ∃ e ∈ g.waiting.items, e.key = k := by
  simp [pending]

theorem contains_iff :
    g.waiting.contains (Entry.discipline order) e = true ↔ e.key ∈ g.pending := by
  simp [Backlog.contains, Entry.discipline, mem_pending]

theorem holder_push : (g.push order e).holder = g.holder := rfl

theorem mem_pending_push : k ∈ (g.push order e).pending ↔ k = e.key ∨ k ∈ g.pending := by
  have hmem : k ∈ (g.push order e).pending ↔
      ∃ x, ((g.waiting.contains (Entry.discipline order) e = false ∧ x = e) ∨
        x ∈ g.waiting.items) ∧ x.key = k := by
    simp only [pending, push, List.mem_map, Backlog.mem_push]
  rw [hmem, mem_pending]
  constructor
  · rintro ⟨x, ⟨-, rfl⟩ | hx, rfl⟩
    · exact .inl rfl
    · exact .inr ⟨x, hx, rfl⟩
  · rintro (rfl | ⟨x, hx, rfl⟩)
    · cases hc : g.waiting.contains (Entry.discipline order) e with
      | false => exact ⟨e, .inl ⟨rfl, rfl⟩, rfl⟩
      | true =>
        obtain ⟨x, hx, hk⟩ := mem_pending.mp (contains_iff.mp hc)
        exact ⟨x, .inr hx, hk⟩
    · exact ⟨x, .inr hx, rfl⟩

theorem stands_push : (g.push order e).Stands k ↔ k = e.key ∨ g.Stands k := by
  simp only [Stands, holder_push, mem_pending_push]
  exact or_left_comm

-- ---------------------------------------------------------------------------
-- Arrivals
-- ---------------------------------------------------------------------------

theorem enroll_of_idle (h : g.holder = none) :
    g.enroll order e =
      (.becameActive, ⟨some e.key, (g.waiting.remove (Entry.discipline order) e).2⟩) := by
  simp [enroll, h]

theorem enroll_of_holder (h : g.holder = some e.key) : g.enroll order e = (.becameActive, g) := by
  simp [enroll, h]

theorem enroll_of_other (h : g.holder = some k) (hk : k ≠ e.key) :
    g.enroll order e = (.queued, g.push order e) := by
  simp [enroll, h, hk]

theorem holder_enroll : (g.enroll order e).2.holder = some (g.holder.getD e.key) := by
  cases h : g.holder with
  | none => simp [enroll_of_idle h]
  | some holder =>
    by_cases hk : holder = e.key
    · subst hk; simp [enroll_of_holder h, h]
    · simp [enroll_of_other h hk, holder_push, h]

theorem becameActive_of_holder (h : (g.enroll order e).2.holder = some e.key) :
    (g.enroll order e).1 = .becameActive := by
  rw [holder_enroll] at h
  cases hh : g.holder with
  | none => rw [enroll_of_idle hh]
  | some holder =>
    have hkey : holder = e.key := by simpa [hh] using h
    rw [enroll_of_holder (hkey ▸ hh)]

theorem stands_enroll : (g.enroll order e).2.Stands k ↔ k = e.key ∨ g.Stands k := by
  cases h : g.holder with
  | none =>
    rw [enroll_of_idle h]
    by_cases hk : k = e.key
    · simp [Stands, hk]
    · have hne : ∀ x : Entry, x.key = k → ¬ (x.key == e.key) = true := by
        rintro x rfl; simpa using hk
      have hline :
        k ∈ (⟨some e.key, (g.waiting.remove (Entry.discipline order) e).2⟩ : Gate).pending ↔
          k ∈ g.pending := by
        simp only [mem_pending, Backlog.remove, Backlog.removeFirst, Entry.discipline]
        constructor
        · rintro ⟨x, hx, rfl⟩
          exact ⟨x, List.mem_of_mem_eraseP hx, rfl⟩
        · rintro ⟨x, hx, rfl⟩
          have hstay :=
      List.mem_eraseP_of_neg (p := fun q : Entry => q.key == e.key) (l := g.waiting.items)
            (hne x rfl)
          exact ⟨x, hstay.mpr hx, rfl⟩
      simp [Stands, h, hline, hk, Ne.symm hk]
  | some holder =>
    by_cases hk : holder = e.key
    · subst hk
      rw [enroll_of_holder h]
      exact ⟨.inr, fun hs => hs.elim (fun he => .inl (he ▸ h)) id⟩
    · rw [enroll_of_other h hk, stands_push]

-- ---------------------------------------------------------------------------
-- Claims
-- ---------------------------------------------------------------------------

/-- All that a claim can come to: it takes the stage, or it joins the line and the holder stays. -/
theorem claim_cases (order : Entry → Entry → Ordering) (g : Gate) (e : Entry) :
    (g.claim order e).1 = .activated ∧ (g.claim order e).2.holder = some e.key ∧
        (g.holder = none ∨ g.holder = some e.key) ∨
      (∃ a, g.holder = some a ∧ a ≠ e.key ∧
        g.claim order e = (.activeElsewhere a, g.push order e)) ∨
      ∃ head, g.holder = none ∧ g.waiting.peek? = some head ∧ head.key ≠ e.key ∧
        g.claim order e = (.notNext head.key, g.push order e) := by
  cases h : g.holder with
  | some holder =>
    by_cases hk : holder = e.key
    · subst hk; exact .inl (by simp [claim, h])
    · exact .inr (.inl ⟨holder, rfl, hk, by simp [claim, h, hk]⟩)
  | none =>
    cases hp : g.waiting.peek? with
    | none => exact .inl (by simp [claim, h, hp])
    | some head =>
      by_cases hk : head.key = e.key
      · exact .inl (by simp [claim, h, hp, hk])
      · exact .inr (.inr ⟨head, rfl, rfl, hk, by simp [claim, h, hp, hk]⟩)

theorem holder_of_activated (h : (g.claim order e).1 = .activated) :
    (g.claim order e).2.holder = some e.key := by
  rcases claim_cases order g e with ⟨-, hholder, -⟩ | ⟨a, -, -, hc⟩ | ⟨head, -, -, -, hc⟩
  · exact hholder
  · rw [hc] at h; cases h
  · rw [hc] at h; cases h

theorem holder_of_activeElsewhere (h : (g.claim order e).1 = .activeElsewhere k) :
    (g.claim order e).2.holder = some k ∧ k ≠ e.key := by
  rcases claim_cases order g e with ⟨hc, -⟩ | ⟨a, hh, hne, hc⟩ | ⟨head, -, -, -, hc⟩
  · rw [hc] at h; cases h
  · rw [hc] at h ⊢
    cases h
    exact ⟨hh, hne⟩
  · rw [hc] at h; cases h

theorem holder_of_notNext (h : (g.claim order e).1 = .notNext k) :
    (g.claim order e).2.holder = none := by
  rcases claim_cases order g e with ⟨hc, -⟩ | ⟨a, hh, hne, hc⟩ | ⟨head, hh, -, -, hc⟩
  · rw [hc] at h; cases h
  · rw [hc] at h; cases h
  · rw [hc]; exact hh

theorem holder_of_put_off (h : (g.claim order e).1 ≠ .activated) :
    (g.claim order e).2.holder = g.holder ∧ g.holder ≠ some e.key := by
  rcases claim_cases order g e with ⟨hc, -⟩ | ⟨a, hh, hne, hc⟩ | ⟨head, hh, -, -, hc⟩
  · exact absurd hc h
  · rw [hc, hh]
    exact ⟨hh, fun ha => hne (Option.some.inj ha)⟩
  · rw [hc, hh]
    exact ⟨hh, by simp⟩

theorem stands_claim : (g.claim order e).2.Stands k ↔ k = e.key ∨ g.Stands k := by
  cases h : g.holder with
  | some holder =>
    by_cases hk : holder = e.key
    · subst hk
      have : g.claim order e = (.activated, g) := by simp [claim, h]
      rw [this]
      exact ⟨.inr, fun hs => hs.elim (fun he => .inl (he ▸ h)) id⟩
    · have : (g.claim order e).2 = g.push order e := by simp [claim, h, hk]
      rw [this, stands_push]
  | none =>
    cases hp : g.waiting.items with
    | nil =>
      have : (g.claim order e).2 = { g with holder := some e.key } := by
        simp [claim, h, Backlog.peek?, hp]
      simp [this, Stands, mem_pending, h, hp, eq_comm]
    | cons head rest =>
      by_cases hk : head.key = e.key
      · have : (g.claim order e).2 = ⟨some e.key, ⟨rest⟩⟩ := by
          simp [claim, h, Backlog.peek?, Backlog.pop, hp, hk]
        simp [this, Stands, mem_pending, h, hp, hk, eq_comm]
      · have : (g.claim order e).2 = g.push order e := by
          simp [claim, h, Backlog.peek?, hp, hk]
        rw [this, stands_push]

-- ---------------------------------------------------------------------------
-- Ends
-- ---------------------------------------------------------------------------

theorem conclude_of_holder (h : g.holder = some k) :
    g.conclude k = (true, { g with holder := none }) := by
  simp [conclude, h]

theorem conclude_of_not_holder (h : g.holder ≠ some k) : g.conclude k = (false, g) := by
  simp [conclude, h]

theorem holder_select {σ ε : Type} (check : PromotionKey → StateM σ (Except ε Verdict)) (g : Gate)
    (s : σ) : ((g.select check).run s).1.2.holder = g.holder := by
  unfold select
  split <;> rfl

-- ---------------------------------------------------------------------------
-- Promotions that have ended
-- ---------------------------------------------------------------------------

/-- At an idle gate, takes the promotions that have ended from the front of the line. -/
def passEnded (ended : PromotionKey → Bool) (g : Gate) : Gate :=
  if g.holder.isSome then g else { g with waiting := ⟨g.waiting.items.dropWhile (ended ·.key)⟩ }

def endedFront (ended : PromotionKey → Bool) (g : Gate) : List PromotionKey :=
  if g.holder.isSome then [] else (g.waiting.items.takeWhile (ended ·.key)).map Entry.key

def next? (g : Gate) : Option PromotionKey := if g.holder.isSome then none else g.peek?

variable {ended : PromotionKey → Bool}

@[simp] theorem holder_passEnded : (g.passEnded ended).holder = g.holder := by
  unfold passEnded
  split <;> rfl

theorem pending_passEnded (ended : PromotionKey → Bool) (g : Gate) :
    g.pending = g.endedFront ended ++ (g.passEnded ended).pending := by
  unfold endedFront passEnded
  split
  · rfl
  · show g.waiting.items.map Entry.key = _ ++ (g.waiting.items.dropWhile (ended ·.key)).map Entry.key
    rw [← List.map_append, List.takeWhile_append_dropWhile]

theorem stands_of_passEnded (h : (g.passEnded ended).Stands k) : g.Stands k := by
  unfold passEnded at h
  split at h
  · exact h
  · rcases h with h | h
    · exact .inl h
    · obtain ⟨e, he, hk⟩ := mem_pending.mp h
      exact .inr (mem_pending.mpr ⟨e, (List.dropWhile_sublist _).subset he, hk⟩)

theorem stands_passEnded (h : g.Stands k) (hk : ended k = false) :
    (g.passEnded ended).Stands k := by
  unfold passEnded
  split
  · exact h
  · rcases h with h | h
    · exact .inl h
    · obtain ⟨e, he, rfl⟩ := mem_pending.mp h
      rw [← List.takeWhile_append_dropWhile (p := (ended ·.key)) (l := g.waiting.items)] at he
      rcases List.mem_append.mp he with he | he
      · have hall := List.all_takeWhile (p := fun x : Entry => ended x.key) (l := g.waiting.items)
        rw [List.all_eq_true.mp hall e he] at hk
        cases hk
      · exact .inr (mem_pending.mpr ⟨e, he, rfl⟩)

theorem stands_of_next? (h : g.next? = some k) : g.Stands k := by
  unfold next? at h
  split at h
  · cases h
  · obtain ⟨e, he, rfl⟩ := Option.map_eq_some_iff.mp h
    exact .inr (mem_pending.mpr ⟨e, List.mem_of_mem_head? he, rfl⟩)

theorem next?_passEnded (h : (g.passEnded ended).next? = some k) : ended k = false := by
  unfold next? at h
  rw [holder_passEnded] at h
  split at h
  · cases h
  · next hn =>
    obtain ⟨e, he, rfl⟩ := Option.map_eq_some_iff.mp h
    rw [passEnded, if_neg hn] at he
    have hfirst : (g.waiting.items.dropWhile (ended ·.key)).head? = some e := he
    have hnot := List.head?_dropWhile_not (ended ·.key) g.waiting.items
    rw [hfirst] at hnot
    exact hnot

theorem next?_passEnded_of_idle (idle : g.holder = none) :
    (g.passEnded ended).next? = g.pending.find? (!ended ·) := by
  have hline : (g.passEnded ended).waiting.items = g.waiting.items.dropWhile (ended ·.key) := by
    rw [passEnded, idle]
    rfl
  have hnext : (g.passEnded ended).next? = (g.passEnded ended).waiting.items.head?.map Entry.key := by
    rw [next?, holder_passEnded, idle]
    rfl
  rw [hnext, hline, pending, List.find?_map]
  congr 1
  induction g.waiting.items with
  | nil => rfl
  | cons e rest ih => cases he : ended e.key <;> simp [he, ih]

end Gate

namespace Gates

variable {gs : Gates} {stage other : StageKey}

-- ---------------------------------------------------------------------------
-- The gates of all stages
-- ---------------------------------------------------------------------------

theorem gate?_set (gs : Gates) (stage other : StageKey) (g : Gate) :
    (gs.set stage g).gate? other = if other = stage then some g else gs.gate? other := by
  simp [gate?, set, SortedMap.get?_insert]

theorem gate_set (g : Gate) :
    (gs.set stage g).gate other = if other = stage then g else gs.gate other := by
  split
  · next h => rw [h, gate_set_self]
  · next h => exact gate_set_of_ne gs g h

theorem gate_of_gate?_none (h : gs.gate? stage = none) : gs.gate stage = {} := by simp [gate, h]

theorem gate_of_gate?_some (h : gs.gate? stage = some g) : gs.gate stage = g := by simp [gate, h]

theorem mem_stages_iff : stage ∈ gs.stages ↔ (gs.gate? stage).isSome := gs.byStage.mem_keys_iff

theorem mem_stages_of_stands (h : (gs.gate stage).Stands k) : stage ∈ gs.stages := by
  rw [mem_stages_iff]
  cases hg : gs.gate? stage with
  | some g => rfl
  | none => rw [gate_of_gate?_none hg] at h; exact absurd h Gate.not_stands_empty

theorem gate_enroll (e : Entry) : (gs.enroll stage e).2.gate other =
    if other = stage then ((gs.gate stage).enroll gs.order e).2 else gs.gate other := gate_set _

theorem active?_enroll (e : Entry) : (gs.enroll stage e).2.active? other =
    if other = stage then some ((gs.active? stage).getD e.key) else gs.active? other := by
  unfold active?
  rw [gate_enroll]
  split
  · exact Gate.holder_enroll
  · rfl

theorem gate_claim (e : Entry) : (gs.claim stage e).2.gate other =
    if other = stage then ((gs.gate stage).claim gs.order e).2 else gs.gate other := gate_set _

theorem gate_claim_self (e : Entry) : (gs.claim stage e).2.gate stage =
    ((gs.gate stage).claim gs.order e).2 := by rw [gate_claim, if_pos rfl]

theorem active?_of_activated {e : Entry} (h : (gs.claim stage e).1 = .activated) :
    (gs.claim stage e).2.active? stage = some e.key := by
  unfold active?
  rw [gate_claim, if_pos rfl]
  exact Gate.holder_of_activated h

theorem waits_of_put_off {e : Entry} (h : (gs.claim stage e).1 ≠ .activated) :
    (gs.claim stage e).2.active? stage = gs.active? stage ∧
      e.key ∈ (gs.claim stage e).2.pending stage := by
  obtain ⟨hsame, hother⟩ := Gate.holder_of_put_off h
  unfold active? pending
  rw [gate_claim_self]
  refine ⟨hsame, (Gate.stands_claim.mpr (.inl rfl)).resolve_left fun hheld => ?_⟩
  exact hother (hsame.symm.trans hheld)

/-- Where an operation does nothing at a fresh gate, it makes no difference that it passes over
stages without one. -/
theorem onKnown_fst (absent : α) (act : Gate → α × Gate) (h : act {} = (absent, {})) :
    (gs.onKnown stage absent act).1 = (act (gs.gate stage)).1 := by
  cases hg : gs.gate? stage with
  | some g => simp [onKnown, hg, gate_of_gate?_some hg]
  | none => simp [onKnown, hg, gate_of_gate?_none hg, h]

theorem gate_onKnown (absent : α) (act : Gate → α × Gate) (h : act {} = (absent, {})) :
    (gs.onKnown stage absent act).2.gate other =
      if other = stage then (act (gs.gate stage)).2 else gs.gate other := by
  cases hg : gs.gate? stage with
  | some g => simp [onKnown, hg, gate_of_gate?_some hg, gate_set]
  | none =>
    simp only [onKnown, hg, gate_of_gate?_none hg, h]
    split
    · next ho => rw [ho, gate_of_gate?_none hg]
    · rfl

theorem conclude_fst (k : PromotionKey) :
    (gs.conclude stage k).1 = ((gs.gate stage).conclude k).1 :=
  onKnown_fst false (·.conclude k) rfl

theorem gate_conclude (k : PromotionKey) : (gs.conclude stage k).2.gate other =
    if other = stage then ((gs.gate stage).conclude k).2 else gs.gate other :=
  gate_onKnown false (·.conclude k) rfl

theorem active?_conclude (k : PromotionKey) : (gs.conclude stage k).2.active? other =
    if other = stage ∧ gs.active? other = some k then none else gs.active? other := by
  unfold active?
  rw [gate_conclude]
  by_cases ho : other = stage
  · subst ho
    simp only [if_true, true_and]
    by_cases hh : (gs.gate other).holder = some k
    · rw [Gate.conclude_of_holder hh, if_pos hh]
    · rw [Gate.conclude_of_not_holder hh, if_neg hh]
  · simp [ho]

theorem gate_pop : (gs.pop stage).2.gate other =
    if other = stage then (gs.gate stage).pop.2 else gs.gate other :=
  gate_onKnown none Gate.pop rfl

theorem gate_remove (k : PromotionKey) : (gs.remove stage k).2.gate other =
    if other = stage then ((gs.gate stage).remove k).2 else gs.gate other :=
  gate_onKnown false (·.remove k) rfl

def passEnded (ended : PromotionKey → Bool) (gs : Gates) (stage : StageKey) : Gates :=
  (gs.onKnown stage () fun g => ((), g.passEnded ended)).2

theorem gate_passEnded (ended : PromotionKey → Bool) : (gs.passEnded ended stage).gate other =
    if other = stage then (gs.gate stage).passEnded ended else gs.gate other :=
  gate_onKnown () (fun g => ((), g.passEnded ended)) rfl

theorem active?_select {σ ε : Type} (check : PromotionKey → StateM σ (Except ε Verdict)) (s : σ) :
    ((gs.select check stage).run s).1.2.active? other = gs.active? other := by
  unfold select
  cases hg : gs.gate? stage with
  | none => rfl
  | some g =>
    have hrun :
        ((gs.select check stage).run s).1.2 = gs.set stage ((g.select check).run s).1.2 := by
      unfold select; rw [hg]; rfl
    show (gs.set stage ((g.select check).run s).1.2).active? other = gs.active? other
    unfold active?
    rw [gate_set]
    split
    · next ho => rw [Gate.holder_select, ho, gate_of_gate?_some hg]
    · rfl

end Gates

end StageGate
