import StageGate.Proofs.Gates.Distinct

/-!
# What a selection asks

A selection asks about the promotions of a line from the front, takes out those that are found stale
and stops at the first other answer. Its questions show once the check keeps notes, and a check that
keeps notes selects what it selects without them. Main statements: `selectFrom_asks` for a line,
`select_stands` for who stands at a gate after a selection.
-/

namespace StageGate

abbrev Notes (ε : Type) := List (PromotionKey × Except ε Verdict)

def noting {σ ε : Type} (check : PromotionKey → StateM σ (Except ε Verdict)) (key : PromotionKey) :
    StateM (σ × Notes ε) (Except ε Verdict) := fun (s, notes) =>
  (((check key).run s).1, (((check key).run s).2, notes ++ [(key, ((check key).run s).1)]))

namespace Gate

variable {σ ε : Type} {check : PromotionKey → StateM σ (Except ε Verdict)} {g : Gate}
  {k : PromotionKey}

theorem selectFrom_cons (check : PromotionKey → StateM σ (Except ε Verdict)) (e : Entry)
    (rest : List Entry) (s : σ) : (selectFrom check (e :: rest)).run s =
      match ((check e.key).run s).1 with
      | .error err => ((⟨.error err, []⟩, e :: rest), ((check e.key).run s).2)
      | .ok .valid => ((⟨.ok (some e.key), []⟩, e :: rest), ((check e.key).run s).2)
      | .ok .stale =>
        let answer := (selectFrom check rest).run ((check e.key).run s).2
        (({ answer.1.1 with stale := e.key :: answer.1.1.stale }, answer.1.2), answer.2) := by
  rw [selectFrom]
  simp only [StateT.run_bind]
  rcases (check e.key).run s with ⟨err | _ | _, s'⟩ <;> rfl

/-- The first promotion that a selection does not find stale ends it: what is then left of the line,
what is noted last, and what the selection comes to. -/
inductive Ends {ε : Type} : List Entry → Notes ε → Except ε (Option PromotionKey) → Prop where
  | dry : Ends [] [] (.ok none)
  | found (e : Entry) (rest : List Entry) :
      Ends (e :: rest) [(e.key, .ok .valid)] (.ok (some e.key))
  | broken (e : Entry) (rest : List Entry) (err : ε) :
      Ends (e :: rest) [(e.key, .error err)] (.error err)

def askedOf {ε : Type} (passed : List Entry) (last : Notes ε) : Notes ε :=
  passed.map (fun e => (e.key, .ok .stale)) ++ last

variable (check) in
/-- A check that starts with `s` is asked these questions, and no others, one after the other, gives
these answers and ends with `s'`. -/
def Answers (s : σ) (asked : Notes ε) (s' : σ) : Prop :=
  ((asked.map Prod.fst).mapM check).run s = (asked.map Prod.snd, s')

theorem answers_nil (s : σ) : Answers check s [] s := rfl

theorem answers_cons {s s' : σ} {asked : Notes ε} {answer : Except ε Verdict}
    (first : ((check k).run s).1 = answer) (rest : Answers check ((check k).run s).2 asked s') :
    Answers check s ((k, answer) :: asked) s' := by
  unfold Answers at *
  rw [List.map_cons, List.map_cons, List.mapM_cons, StateT.run_bind, ← first]
  show ((asked.map Prod.fst).mapM check >>= fun answers => pure (((check k).run s).1 :: answers)).run
    ((check k).run s).2 = _
  rw [StateT.run_bind, rest]
  rfl

/-- A selection from a line as seen by its check: it passes over a part of the line, finding it
stale, and ends with what is left. Notes are all that tells it from one whose check keeps none. -/
structure Asks (check : PromotionKey → StateM σ (Except ε Verdict)) (line : List Entry) (s : σ)
    (passed : List Entry) (last : Notes ε) (answer : (Selection ε × List Entry) × σ) : Prop where
  split : line = passed ++ answer.1.2
  stale : answer.1.1.stale = passed.map Entry.key
  ends : Ends answer.1.2 last answer.1.1.next
  answers : Answers check s (askedOf passed last) answer.2
  noted : ∀ notes, (selectFrom (noting check) line).run (s, notes) =
    (answer.1, (answer.2, notes ++ askedOf passed last))

theorem selectFrom_asks (check : PromotionKey → StateM σ (Except ε Verdict)) (line : List Entry)
    (s : σ) : ∃ passed last, Asks check line s passed last ((selectFrom check line).run s) := by
  induction line generalizing s with
  | nil => exact ⟨[], [], rfl, rfl, .dry, answers_nil s, fun notes => by simp [askedOf]; rfl⟩
  | cons e rest ih =>
    have hnoting (notes : Notes ε) : (noting check e.key).run (s, notes) =
        (((check e.key).run s).1,
          (((check e.key).run s).2, notes ++ [(e.key, ((check e.key).run s).1)])) := rfl
    rcases hv : ((check e.key).run s).1 with err | _ | _
    · refine ⟨[], [(e.key, .error err)], ?_⟩
      rw [selectFrom_cons, hv]
      refine ⟨rfl, rfl, .broken e rest err, answers_cons hv (answers_nil _), fun notes => ?_⟩
      rw [selectFrom_cons, hnoting, hv]
      rfl
    · refine ⟨[], [(e.key, .ok .valid)], ?_⟩
      rw [selectFrom_cons, hv]
      refine ⟨rfl, rfl, .found e rest, answers_cons hv (answers_nil _), fun notes => ?_⟩
      rw [selectFrom_cons, hnoting, hv]
      rfl
    · obtain ⟨passed, last, h⟩ := ih ((check e.key).run s).2
      refine ⟨e :: passed, last, ?_⟩
      rw [selectFrom_cons, hv]
      refine ⟨congrArg (e :: ·) h.split, congrArg (e.key :: ·) h.stale, h.ends,
        answers_cons hv h.answers, fun notes => ?_⟩
      rw [selectFrom_cons, hnoting, hv]
      simp only [h.noted, askedOf, List.map_cons, List.cons_append, List.append_assoc,
        List.nil_append]

variable {passed left : List Entry} {last : Notes ε} {next : Except ε (Option PromotionKey)}

theorem Ends.not_stale (ends : Ends left last next) : (k, .ok .stale) ∉ last := by
  cases ends <;> simp

theorem Ends.about_first (ends : Ends left last next) :
    last.map Prod.fst <+: left.map Entry.key := by
  cases ends with
  | dry => exact List.prefix_rfl
  | found e rest => exact ⟨rest.map Entry.key, rfl⟩
  | broken e rest err => exact ⟨rest.map Entry.key, rfl⟩

theorem mem_askedOf_stale (unstale : (k, .ok .stale) ∉ last) :
    (k, .ok .stale) ∈ askedOf passed last ↔ k ∈ passed.map Entry.key := by
  simp [askedOf, unstale]

theorem keys_askedOf_prefix (first : last.map Prod.fst <+: left.map Entry.key) :
    (askedOf passed last).map Prod.fst <+: (passed ++ left).map Entry.key := by
  rw [askedOf, List.map_append, List.map_append, List.map_map]
  exact (List.prefix_append_right_inj _).mpr first

variable (check) in
def FindsStale (g : Gate) (start : σ) (k : PromotionKey) : Prop :=
  (k, .ok .stale) ∈ ((g.select (noting check)).run (start, [])).2.2

theorem select_of_holder (held : g.holder ≠ none) (start : σ) :
    (g.select check).run start = ((⟨.ok none, []⟩, g), start) := by
  unfold select
  rw [if_pos (Option.isSome_iff_ne_none.mpr held)]
  rfl

theorem select_of_idle (idle : g.holder = none) (start : σ) :
    (g.select check).run start = ((((selectFrom check g.waiting.items).run start).1.1,
      { g with waiting := ⟨((selectFrom check g.waiting.items).run start).1.2⟩ }),
        ((selectFrom check g.waiting.items).run start).2) := by
  unfold select
  rw [if_neg (by simp [idle])]
  rfl

theorem select_lost (check : PromotionKey → StateM σ (Except ε Verdict)) (g : Gate) (start : σ) :
    ∃ passed, g.Lost passed ((g.select check).run start).1.2 ∧
      ∀ k, g.FindsStale check start k ↔ k ∈ passed := by
  unfold FindsStale
  by_cases hh : g.holder = none
  · obtain ⟨passed, last, h⟩ := selectFrom_asks check g.waiting.items start
    rw [select_of_idle hh, select_of_idle hh, h.noted]
    refine ⟨passed.map Entry.key, ⟨?_, ?_, id⟩, fun k => mem_askedOf_stale h.ends.not_stale⟩
    · show (g.waiting.items.map Entry.key).Perm
        (passed.map Entry.key ++ ((selectFrom check g.waiting.items).run start).1.2.map Entry.key)
      rw [← List.map_append, ← h.split]
    · have hleft := List.sublist_append_right passed
        ((selectFrom check g.waiting.items).run start).1.2
      rwa [← h.split] at hleft
  · rw [select_of_holder hh, select_of_holder hh]
    exact ⟨[], ⟨.refl _, .refl _, id⟩, fun k => by simp⟩

theorem select_stands (h : g.Distinct) (start : σ) : ((g.select check).run start).1.2.Stands k ↔
    g.Stands k ∧ ¬ g.FindsStale check start k := by
  obtain ⟨passed, hlost, hstale⟩ := select_lost check g start
  rw [h.stands_rest hlost (holder_select check g start), hstale]

end Gate

namespace Gates

variable {σ ε : Type} {check : PromotionKey → StateM σ (Except ε Verdict)} {gs : Gates}
  {stage other : StageKey}

theorem gate_select (start : σ) : ((gs.select check stage).run start).1.2.gate other =
    if other = stage then (((gs.gate stage).select check).run start).1.2 else gs.gate other := by
  unfold select
  cases hg : gs.gate? stage with
  | some g =>
    rw [gate_of_gate?_some hg]
    exact gate_set _
  | none =>
    -- A selection does nothing at a fresh gate.
    show gs.gate other = if other = stage then (((gs.gate stage).select check).run start).1.2 else _
    split
    · next ho => rw [ho, gate_of_gate?_none hg]; rfl
    · rfl

variable (check) in
def FindsStale (gs : Gates) (stage : StageKey) (start : σ) (k : PromotionKey) : Prop :=
  (k, .ok .stale) ∈ ((gs.select (noting check) stage).run (start, [])).2.2

theorem findsStale_iff (start : σ) (k : PromotionKey) :
    gs.FindsStale check stage start k ↔ (gs.gate stage).FindsStale check start k := by
  unfold FindsStale select
  cases hg : gs.gate? stage with
  | some g => rw [gate_of_gate?_some hg]; rfl
  | none => rw [gate_of_gate?_none hg]; rfl

end Gates

end StageGate
