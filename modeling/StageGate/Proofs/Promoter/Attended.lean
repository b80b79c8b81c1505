import StageGate.Proofs.Gates.Effects
import StageGate.Proofs.Store.Chronicle

/-!
# Attention for every stage

`Attended` says of a store and its gates that nobody is forgotten: a promotion that holds its
stage and has not ended is tended, and so is the first one in line at an idle stage; an open
promotion stands at its stage. What may be missing for now is a parameter, the `Due`: the ends,
the stages and the arrivals that the promoter still has to look at. Every effect of an action has
one lemma here, which says what it adds to the due and what it takes from it.
-/

namespace StageGate

/-- The promotion is known to the promoter as one that it works on, for that stage. -/
def Store.Registered (settings : Settings) (s : Store) (stage : StageKey)
    (k : PromotionKey) : Prop :=
  ∃ q, .promotionCreated q ∈ s.feed.changes ∧ q.key = k ∧ q.stageKey = stage ∧
    settings.isResponsibleFor q.metadata = true

def Change.LooksAt (settings : Settings) (c : Change) (stage : StageKey) : Prop :=
  ∃ p, c.ended? = some p ∧ p.stageKey = stage ∧ settings.isResponsibleFor p.metadata = true

/-- What the promoter still has to do. -/
structure Due where
  /-- It will hear that the promotion has ended, and free the stage. -/
  ends : StageKey → PromotionKey → Prop
  /-- It will look for the next promotion of the stage. -/
  looks : StageKey → Prop
  /-- It will hear of the promotion's creation. -/
  arrivals : PromotionKey → Prop

namespace Due

/-- What the promoter will do once it hears of these changes. -/
def ofNews (settings : Settings) (news : List Change) : Due where
  ends _ k := ∃ c ∈ news, ∃ p, c.ended? = some p ∧ p.key = k
  looks stage := ∃ c ∈ news, ∃ p, c.ended? = some p ∧ p.stageKey = stage ∧
    settings.isResponsibleFor p.metadata = true
  arrivals k := ∃ p, .promotionCreated p ∈ news ∧ p.key = k

def freeing (stages : List StageKey) : Due :=
  ⟨fun stage _ => stage ∈ stages, fun _ => True, fun _ => True⟩

def admitting (d : Due) (list : List Promotion) : Due :=
  { d with ends := fun _ _ => False, arrivals := fun k => ∃ p ∈ list, p.key = k }

def sending (stages : List StageKey) : Due := ⟨fun _ _ => False, (· ∈ stages), fun _ => False⟩

structure Le (d e : Due) : Prop where
  ends : ∀ {stage k}, d.ends stage k → e.ends stage k
  looks : ∀ {stage}, d.looks stage → e.looks stage
  arrivals : ∀ {k}, d.arrivals k → e.arrivals k

def looked (d : Due) (stage : StageKey) : Due :=
  { d with looks := fun other => d.looks other ∧ other ≠ stage }

def look (d : Due) (stage : StageKey) : Due :=
  { d with looks := fun other => d.looks other ∨ other = stage }

def also (d : Due) (stages : StageKey → Prop) : Due :=
  { d with looks := fun stage => d.looks stage ∨ stages stage }

def freed (d : Due) (stage : StageKey) (key : PromotionKey) : Due :=
  { d.look stage with ends := fun other k => d.ends other k ∧ k ≠ key }

def arrived (d : Due) (key : PromotionKey) : Due :=
  { d with arrivals := fun k => d.arrivals k ∧ k ≠ key }

section
variable {settings : Settings} {news more rest : List Change} {c : Change} {stage : StageKey}
  {k : PromotionKey} {d e : Due} {missed : StageKey → Prop}

theorem Le.trans {f : Due} (h : d.Le e) (h' : e.Le f) : d.Le f :=
  ⟨fun he => h'.ends (h.ends he), fun hl => h'.looks (h.looks hl),
    fun ha => h'.arrivals (h.arrivals ha)⟩

theorem Le.also (h : d.Le e) : (d.also missed).Le (e.also missed) :=
  ⟨h.ends, Or.imp_left h.looks, h.arrivals⟩

theorem le_also : d.Le (d.also missed) := ⟨id, .inl, id⟩

theorem also_mono {missed' : StageKey → Prop} (sub : ∀ {stage}, missed stage → missed' stage) :
    (d.also missed).Le (d.also missed') := ⟨id, Or.imp_right sub, id⟩

theorem look_le (h : missed stage) : (d.look stage).Le ((d.looked stage).also missed) := by
  refine ⟨id, fun {other} hl => ?_, id⟩
  by_cases hs : other = stage
  · exact .inr (hs ▸ h)
  · exact .inl ⟨hl.resolve_right hs, hs⟩

theorem also_none (d : Due) : d.also (fun _ => False) = d := by simp [also]

theorem ofNews_le (h : news ⊆ more) :
    (ofNews settings news).Le (ofNews settings more) where
  ends := fun ⟨c, hc, he⟩ => ⟨c, h hc, he⟩
  looks := fun ⟨c, hc, he⟩ => ⟨c, h hc, he⟩
  arrivals := fun ⟨p, hp, he⟩ => ⟨p, h hp, he⟩

/-! What is due by the news of one more change is due by the news of the others, or by it. -/

theorem ends_of_cons (he : ∀ p, c.ended? = some p → p.key ≠ k)
    (h : (ofNews settings (c :: rest)).ends stage k) : (ofNews settings rest).ends stage k := by
  obtain ⟨d, hd, p, hp, hk⟩ := h
  rcases List.mem_cons.mp hd with rfl | hd
  · exact absurd hk (he p hp)
  · exact ⟨d, hd, p, hp, hk⟩

theorem looks_of_cons (hc : ¬ c.LooksAt settings stage)
    (h : (ofNews settings (c :: rest)).looks stage) : (ofNews settings rest).looks stage := by
  obtain ⟨d, hd, hl⟩ := h
  rcases List.mem_cons.mp hd with rfl | hd
  · exact absurd hl hc
  · exact ⟨d, hd, hl⟩

theorem arrivals_of_cons (hc : ∀ p, c = .promotionCreated p → p.key ≠ k)
    (h : (ofNews settings (c :: rest)).arrivals k) : (ofNews settings rest).arrivals k := by
  obtain ⟨p, hp, hk⟩ := h
  rcases List.mem_cons.mp hp with rfl | hp
  · exact absurd hk (hc p rfl)
  · exact ⟨p, hp, hk⟩

theorem released_le {p : Promotion} (he : c.ended? = some p) :
    ((((ofNews settings (c :: rest)).also missed).freed p.stageKey p.key).looked p.stageKey).Le
      ((ofNews settings rest).also fun stage => missed stage ∧ ¬ c.LooksAt settings stage) := by
  refine ⟨?_, ?_, ?_⟩
  · rintro stage k ⟨hd, hne⟩
    have hmore : (ofNews settings (c :: rest)).ends stage k := hd
    exact ends_of_cons (fun q hq hk => by rw [he] at hq; cases hq; exact hne hk.symm) hmore
  · rintro stage ⟨hl, hne⟩
    have hlook : ¬ c.LooksAt settings stage := by
      rintro ⟨q, hq, rfl, -⟩
      rw [he] at hq
      cases hq
      exact hne rfl
    rcases hl with (hl | hl) | rfl
    · exact .inl (looks_of_cons hlook hl)
    · exact .inr ⟨hl, hlook⟩
    · exact absurd rfl hne
  · intro k ha
    have hmore : (ofNews settings (c :: rest)).arrivals k := ha
    refine arrivals_of_cons (fun q hq => ?_) hmore
    rw [hq] at he
    cases he

end

end Due

/-- What attention means at one stage. `tended` are the promotions that a worker has or will get. -/
structure Gate.Attended (settings : Settings) (tended : PromotionKey → Prop) (due : Due) (s : Store)
    (stage : StageKey) (g : Gate) : Prop where
  registered : ∀ {k}, g.Stands k → s.Registered settings stage k
  awake : ∀ {k}, g.holder = some k → s.hasEnded k = false → tended k
  ending : ∀ {k}, g.holder = some k → s.hasEnded k = true → due.ends stage k
  next : ∀ {k}, g.next? = some k → due.looks stage ∨ s.hasEnded k = false ∧ tended k
  placed : ∀ {k p}, s.promotion? k = some p → settings.worksOn p = true → p.stageKey = stage →
    g.Stands k ∨ due.arrivals k

structure Attended (settings : Settings) (tended : PromotionKey → Prop) (due : Due) (s : Store)
    (gs : Gates) : Prop where
  chronicle : s.Chronicle
  expected : ∀ {k}, tended k → ∃ stage, s.Registered settings stage k
  gates : ∀ stage, (gs.gate stage).Attended settings tended due s stage

variable {settings : Settings} {tended tended' : PromotionKey → Prop} {due due' : Due}
  {s s' : Store} {gs gs' : Gates} {g g' : Gate} {stage stage' : StageKey} {k : PromotionKey}
  {p : Promotion} {c : Change}

-- ---------------------------------------------------------------------------
-- Registered promotions
-- ---------------------------------------------------------------------------

namespace Store

theorem Chronicle.registered_of_stored (hc : s.Chronicle) (hp : s.promotion? k = some p)
    (hr : settings.isResponsibleFor p.metadata = true) : s.Registered settings p.stageKey k := by
  obtain ⟨q, hq, hb⟩ := hc.created hp
  refine ⟨q, hq, ?_, Promotion.stageKey_of_bare hb, ?_⟩
  · exact (Promotion.key_of_bare hb).trans (hc.key_eq hp)
  · rw [settings.responsible_of_bare hb, hr]

theorem Chronicle.registered_of_ended (hc : s.Chronicle) (hm : c ∈ s.feed.changes)
    (he : c.ended? = some p) (hr : settings.isResponsibleFor p.metadata = true) :
    s.Registered settings p.stageKey p.key := by
  obtain ⟨q, hq, hb⟩ := hc.born hm he
  exact ⟨q, hq, Promotion.key_of_bare hb, Promotion.stageKey_of_bare hb,
    (settings.responsible_of_bare hb).trans hr⟩

theorem Chronicle.stage_unique (hc : s.Chronicle) (h : s.Registered settings stage k)
    (h' : s.Registered settings stage' k) : stage = stage' := by
  obtain ⟨q, hq, hk, rfl, -⟩ := h
  obtain ⟨q', hq', hk', rfl, -⟩ := h'
  rw [hc.once hq hq' (hk.trans hk'.symm)]

theorem Chronicle.spec_of_created (hc : s.Chronicle) (h : s.Registered settings stage k)
    (hq : .promotionCreated q ∈ s.feed.changes) (hb : q.bare = p.bare) (hk : p.key = k) :
    p.stageKey = stage ∧ settings.isResponsibleFor p.metadata = true := by
  obtain ⟨q', hq', hk', hstage, hr⟩ := h
  obtain rfl := hc.once hq hq' ((Promotion.key_of_bare hb).trans (hk.trans hk'.symm))
  exact ⟨(Promotion.stageKey_of_bare hb).symm.trans hstage,
    (settings.responsible_of_bare hb).symm.trans hr⟩

theorem Chronicle.end_of_registered (hc : s.Chronicle) (h : s.Registered settings stage k)
    (hm : c ∈ s.feed.changes) (he : c.ended? = some p) (hk : p.key = k) :
    p.stageKey = stage ∧ settings.isResponsibleFor p.metadata = true := by
  obtain ⟨q, hq, hb⟩ := hc.born hm he
  exact hc.spec_of_created h hq hb hk

theorem Chronicle.spec_of_registered (hc : s.Chronicle) (h : s.Registered settings stage k)
    (hp : s.promotion? k = some p) :
    p.stageKey = stage ∧ settings.isResponsibleFor p.metadata = true := by
  obtain ⟨q, hq, hb⟩ := hc.created hp
  exact hc.spec_of_created h hq hb (hc.key_eq hp)

theorem Registered.used (h : s.Registered settings stage k) : ¬ s.Unused k := by
  obtain ⟨q, hq, hk, -⟩ := h
  exact fun hu => hu q hq hk

theorem Lawful.registered (hl : Lawful s s') (h : s.Registered settings stage k) :
    s'.Registered settings stage k := by
  obtain ⟨q, hq, h⟩ := h
  exact ⟨q, hl.mem_changes hq, h⟩

theorem Lawful.unended (hl : Lawful s s') (h : s.Registered settings stage k)
    (he : s'.hasEnded k = false) : s.hasEnded k = false := by
  cases ho : s.hasEnded k with
  | false => rfl
  | true =>
    rw [hl.ended_mono h.used ho] at he
    cases he

end Store

-- ---------------------------------------------------------------------------
-- One gate
-- ---------------------------------------------------------------------------

namespace Gate.Attended

theorem narrow (h : g.Attended settings tended due s stage) (tend : ∀ {k}, tended k → tended' k)
    (ends : ∀ {k}, g.holder = some k → s.hasEnded k = true → due.ends stage k → due'.ends stage k)
    (looks : ∀ {k}, g.next? = some k → due.looks stage → due'.looks stage)
    (arrivals : ∀ {k p}, s.promotion? k = some p → settings.worksOn p = true → p.stageKey = stage →
      due.arrivals k → due'.arrivals k) :
    g.Attended settings tended' due' s stage where
  registered := h.registered
  awake hh he := tend (h.awake hh he)
  ending hh he := ends hh he (h.ending hh he)
  next hn := (h.next hn).imp (looks hn) (fun ⟨he, ht⟩ => ⟨he, tend ht⟩)
  placed hp hw hs := (h.placed hp hw hs).imp id (arrivals hp hw hs)

theorem passEnded (h : g.Attended settings tended due s stage)
    (tend : ∀ {k}, tended k → tended' k)
    (sent : ∀ {k}, (g.passEnded s.hasEnded).next? = some k → tended' k) :
    (g.passEnded s.hasEnded).Attended settings tended' (due.looked stage) s stage where
  registered hs := h.registered (stands_of_passEnded hs)
  awake hh he := tend (h.awake (holder_passEnded ▸ hh) he)
  ending hh he := h.ending (holder_passEnded ▸ hh) he
  next hn := .inr ⟨next?_passEnded hn, sent hn⟩
  placed hp hw hs := (h.placed hp hw hs).imp (fun hst => stands_passEnded hst
    (by rw [Store.hasEnded_of_stored hp, (Settings.worksOn_iff.mp hw).1])) id

theorem conclude (h : g.Attended settings tended due s stage) (hk : s.hasEnded k = true) :
    (g.conclude k).2.Attended settings tended (due.freed stage k) s stage := by
  by_cases hh : g.holder = some k
  · rw [conclude_of_holder hh]
    have hstands {j : PromotionKey} (hj : j ≠ k) (hs : g.Stands j) :
        ({ g with holder := none } : Gate).Stands j := by
      rcases hs with hs | hs
      · rw [hh] at hs
        exact absurd (Option.some.inj hs).symm hj
      · exact .inr hs
    refine ⟨?_, ?_, ?_, fun _ => .inl (.inr rfl), ?_⟩
    · rintro j (hs | hs)
      · cases hs
      · exact h.registered (.inr hs)
    · rintro j ⟨⟩
    · rintro j ⟨⟩
    · intro j p hp hw hs
      refine (h.placed hp hw hs).imp (hstands ?_) id
      rintro rfl
      rw [Store.hasEnded_of_stored hp, (Settings.worksOn_iff.mp hw).1] at hk
      cases hk
  · rw [conclude_of_not_holder hh]
    refine ⟨h.registered, h.awake, fun {j} hj he => ⟨h.ending hj he, ?_⟩,
      fun hn => (h.next hn).imp .inl id, h.placed⟩
    rintro rfl
    exact hh hj

theorem next?_of_holder (h : g.holder = some k) : g.next? = none := by
  unfold next?
  rw [h]
  rfl

/-- A promotion arrives. If it takes the stage it is to be tended, unless it has ended and the
promoter will hear of it. -/
theorem enroll (h : g.Attended settings tended due s stage) {order : Entry → Entry → Ordering}
    {e : Entry} (reg : s.Registered settings stage e.key) (tend : ∀ {k}, tended k → tended' k)
    (active : (g.enroll order e).1 = .becameActive → tended' e.key)
    (told : s.hasEnded e.key = true → due.ends stage e.key) :
    (g.enroll order e).2.Attended settings tended' (due.arrived e.key) s stage := by
  have hholder : ∀ {k}, (g.enroll order e).2.holder = some k →
      g.holder = some k ∨ k = e.key ∧ (g.enroll order e).1 = .becameActive := by
    intro k hk
    cases hg : g.holder with
    | none =>
      rw [enroll_of_idle hg] at hk ⊢
      exact .inr ⟨(Option.some.inj hk).symm, rfl⟩
    | some j =>
      rw [holder_enroll, hg] at hk
      exact .inl hk
  refine ⟨fun hs => ?_, fun hh he => ?_, fun hh he => ?_, fun hn => ?_, fun {k p} hp hw hs => ?_⟩
  · rcases stands_enroll.mp hs with rfl | hs
    · exact reg
    · exact h.registered hs
  · rcases hholder hh with hh | ⟨rfl, ha⟩
    · exact tend (h.awake hh he)
    · exact active ha
  · rcases hholder hh with hh | ⟨rfl, -⟩
    · exact h.ending hh he
    · exact told he
  · rw [next?_of_holder holder_enroll] at hn
    cases hn
  · rw [stands_enroll]
    by_cases hk : k = e.key
    · exact .inl (.inl hk)
    · exact (h.placed hp hw hs).imp .inr (⟨·, hk⟩)

theorem claim (h : g.Attended settings tended due s stage) {order : Entry → Entry → Ordering}
    {e : Entry} (reg : s.Registered settings stage e.key) (tend : tended e.key)
    (open_ : s.hasEnded e.key = false) :
    (g.claim order e).2.Attended settings tended (due.look stage) s stage := by
  have hholder : ∀ {k}, (g.claim order e).2.holder = some k → g.holder = some k ∨ k = e.key := by
    intro k hk
    rcases claim_cases order g e with ⟨-, hh, -⟩ | ⟨a, -, -, hc⟩ | ⟨head, -, -, -, hc⟩
    · rw [hh] at hk
      exact .inr (Option.some.inj hk).symm
    · rw [hc] at hk
      exact .inl hk
    · rw [hc] at hk
      exact .inl hk
  refine ⟨fun hs => ?_, fun hh he => ?_, fun hh he => ?_, fun _ => .inl (.inr rfl), ?_⟩
  · rcases stands_claim.mp hs with rfl | hs
    · exact reg
    · exact h.registered hs
  · rcases hholder hh with hh | rfl
    · exact h.awake hh he
    · exact tend
  · rcases hholder hh with hh | rfl
    · exact h.ending hh he
    · rw [open_] at he
      cases he
  · intro k p hp hw hs
    rw [stands_claim]
    exact (h.placed hp hw hs).imp .inr id

theorem holder_eq_none (h : g.Attended settings tended due s stage) (untended : ∀ k, ¬ tended k)
    (ends : ∀ k, ¬ due.ends stage k) : g.holder = none := by
  cases hh : g.holder with
  | none => rfl
  | some k =>
    cases he : s.hasEnded k with
    | false => exact (untended k (h.awake hh he)).elim
    | true => exact (ends k (h.ending hh he)).elim

theorem eq_empty (h : g.Attended settings tended due s stage) (untended : ∀ k, ¬ tended k)
    (ends : ∀ k, ¬ due.ends stage k) (looks : ¬ due.looks stage) : g = {} := by
  have hidle := h.holder_eq_none untended ends
  obtain ⟨holder, ⟨items⟩⟩ := g
  obtain rfl : holder = none := hidle
  cases items with
  | nil => rfl
  | cons e rest =>
    rcases h.next (k := e.key) rfl with hl | ⟨-, ht⟩
    · exact (looks hl).elim
    · exact (untended e.key ht).elim

end Gate.Attended

-- ---------------------------------------------------------------------------
-- The gates of all stages
-- ---------------------------------------------------------------------------

namespace Attended

theorem narrow (h : Attended settings tended due s gs)
    (ends : ∀ {stage k}, gs.active? stage = some k → s.hasEnded k = true → due.ends stage k →
      due'.ends stage k)
    (looks : ∀ {stage k}, (gs.gate stage).next? = some k → due.looks stage → due'.looks stage)
    (arrivals : ∀ {k p}, s.promotion? k = some p → settings.worksOn p = true → due.arrivals k →
      due'.arrivals k) :
    Attended settings tended due' s gs :=
  ⟨h.chronicle, h.expected, fun stage => (h.gates stage).narrow id ends looks
    (fun hp hw _ => arrivals hp hw)⟩

theorem mono (h : Attended settings tended due s gs) (hd : due.Le due') :
    Attended settings tended due' s gs :=
  h.narrow (fun _ _ => hd.ends) (fun _ => hd.looks) (fun _ _ => hd.arrivals)

/-- More promotions may be tended, as long as they are registered; and one that is no longer
tended is missed by nobody if it has ended, or if it holds no stage and is not the next one of
any. -/
theorem retend (h : Attended settings tended due s gs)
    (reg : ∀ {k}, tended' k → tended k ∨ ∃ stage, s.Registered settings stage k)
    (kept : ∀ {k}, tended k → tended' k ∨ s.hasEnded k = true ∨
      ∀ stage, gs.active? stage ≠ some k ∧ ((gs.gate stage).next? = some k → due.looks stage)) :
    Attended settings tended' due s gs where
  chronicle := h.chronicle
  expected ht := (reg ht).elim h.expected id
  gates stage :=
    { registered := (h.gates stage).registered
      ending := (h.gates stage).ending
      placed := (h.gates stage).placed
      awake := fun {k} hh he => by
        rcases kept ((h.gates stage).awake hh he) with ht | ht | ht
        · exact ht
        · rw [he] at ht; cases ht
        · exact absurd hh (ht stage).1
      next := fun {k} hn => by
        rcases (h.gates stage).next hn with hl | ⟨he, ht⟩
        · exact .inl hl
        · rcases kept ht with ht | ht | ht
          · exact .inr ⟨he, ht⟩
          · rw [he] at ht; cases ht
          · exact .inl ((ht stage).2 hn) }

/-- What happens at one gate is no concern of the others, if it takes nothing that is due for
them. -/
theorem at_gate (h : Attended settings tended due s gs)
    (hg : ∀ other, gs'.gate other = if other = stage then g else gs.gate other)
    (here : g.Attended settings tended' due' s stage)
    (tend : ∀ {k}, tended k → tended' k)
    (reg : ∀ {k}, tended' k → tended k ∨ ∃ stage, s.Registered settings stage k)
    (ends : ∀ {other k}, other ≠ stage → s.Registered settings other k → due.ends other k →
      due'.ends other k)
    (looks : ∀ {other}, other ≠ stage → due.looks other → due'.looks other)
    (arrivals : ∀ {other k}, other ≠ stage → s.Registered settings other k → due.arrivals k →
      due'.arrivals k) :
    Attended settings tended' due' s gs' where
  chronicle := h.chronicle
  expected ht := (reg ht).elim h.expected id
  gates other := by
    rw [hg]
    split
    · next ho => exact ho ▸ here
    · next ho =>
      exact (h.gates other).narrow tend
        (fun hh _ => ends ho ((h.gates other).registered (.inl hh))) (fun _ => looks ho)
        (fun hp hw hs => arrivals ho (hs ▸
          h.chronicle.registered_of_stored hp (Settings.worksOn_iff.mp hw).2))

theorem passEnded (h : Attended settings tended due s gs) (stage : StageKey) :
    Attended settings
      (fun k => tended k ∨ ((gs.passEnded s.hasEnded stage).gate stage).next? = some k)
      (due.looked stage) s (gs.passEnded s.hasEnded stage) := by
  have hself :
      (gs.passEnded s.hasEnded stage).gate stage = (gs.gate stage).passEnded s.hasEnded := by
    rw [Gates.gate_passEnded, if_pos rfl]
  have here : ((gs.gate stage).passEnded s.hasEnded).Attended settings
      (fun k => tended k ∨ ((gs.gate stage).passEnded s.hasEnded).next? = some k) (due.looked stage)
      s stage := (h.gates stage).passEnded .inl .inr
  rw [hself]
  refine h.at_gate (fun _ => Gates.gate_passEnded _) here .inl ?_ (fun _ _ => id)
    (fun ho hl => ⟨hl, ho⟩) (fun _ _ => id)
  rintro k (ht | hn)
  · exact .inl ht
  · exact .inr ⟨stage, here.registered (Gate.stands_of_next? hn)⟩

theorem conclude (h : Attended settings tended due s gs) (hk : s.hasEnded k = true)
    (reg : s.Registered settings stage k) :
    Attended settings tended (due.freed stage k) s (gs.conclude stage k).2 := by
  refine h.at_gate (fun _ => Gates.gate_conclude k) ((h.gates stage).conclude hk) id .inl ?_
    (fun _ => .inl) (fun _ _ => id)
  intro other j ho hr he
  refine ⟨he, ?_⟩
  rintro rfl
  exact ho (h.chronicle.stage_unique hr reg)

theorem enroll (h : Attended settings tended due s gs) {e : Entry}
    (reg : s.Registered settings stage e.key) (tend : ∀ {k}, tended k → tended' k)
    (sub : ∀ {k}, tended' k → tended k ∨ k = e.key)
    (active : (gs.enroll stage e).1 = .becameActive → tended' e.key)
    (told : s.hasEnded e.key = true → due.ends stage e.key) :
    Attended settings tended' (due.arrived e.key) s (gs.enroll stage e).2 := by
  refine h.at_gate (fun _ => Gates.gate_enroll e) ((h.gates stage).enroll reg tend active told) tend
    (fun ht => (sub ht).imp id ?_) (fun _ _ => id) (fun _ => id) ?_
  · rintro rfl
    exact ⟨stage, reg⟩
  · intro other j ho hr ha
    refine ⟨ha, ?_⟩
    rintro rfl
    exact ho (h.chronicle.stage_unique hr reg)

theorem claim (h : Attended settings tended due s gs) {e : Entry}
    (reg : s.Registered settings stage e.key) (tend : tended e.key)
    (open_ : s.hasEnded e.key = false) :
    Attended settings tended (due.look stage) s (gs.claim stage e).2 :=
  h.at_gate (fun _ => Gates.gate_claim e) ((h.gates stage).claim reg tend open_) id .inl
    (fun _ _ => id) (fun _ => .inl) (fun _ _ => id)

theorem unlook (h : Attended settings tended (due.look stage) s gs)
    (hn : (gs.gate stage).next? = none) : Attended settings tended due s gs where
  chronicle := h.chronicle
  expected := h.expected
  gates other :=
    { registered := (h.gates other).registered
      awake := (h.gates other).awake
      ending := (h.gates other).ending
      placed := (h.gates other).placed
      next := fun {k} hk => by
        rcases (h.gates other).next hk with (hl | rfl) | hr
        · exact .inl hl
        · rw [hn] at hk; cases hk
        · exact .inr hr }

-- ---------------------------------------------------------------------------
-- What happens in the store
-- ---------------------------------------------------------------------------

/-- A lawful write takes nobody's attention away, if what it tells of is due from then on. -/
theorem lawful (h : Attended settings tended due s gs) (hl : Store.Lawful s s') (hd : due.Le due')
    (told : ∀ c, s'.feed.changes = s.feed.changes ++ [c] → (Due.ofNews settings [c]).Le due') :
    Attended settings tended due' s' gs where
  chronicle := h.chronicle.lawful hl
  expected ht := (h.expected ht).imp fun _ => hl.registered
  gates stage :=
    { registered := fun hs => hl.registered ((h.gates stage).registered hs)
      awake := fun hh he =>
        (h.gates stage).awake hh (hl.unended ((h.gates stage).registered (.inl hh)) he)
      ending := fun {k} hh he => by
        cases ho : s.hasEnded k with
        | true => exact hd.ends ((h.gates stage).ending hh ho)
        | false =>
          obtain ⟨c, p, hc, hp, hk⟩ := hl.ends h.chronicle ho he
          exact (told c hc).ends ⟨c, List.mem_singleton_self c, p, hp, hk⟩
      next := fun {k} hn => by
        rcases (h.gates stage).next hn with hlook | ⟨ho, ht⟩
        · exact .inl (hd.looks hlook)
        cases he : s'.hasEnded k with
        | false => exact .inr ⟨rfl, ht⟩
        | true =>
          obtain ⟨c, p, hc, hp, hk⟩ := hl.ends h.chronicle ho he
          have reg := hl.registered ((h.gates stage).registered (Gate.stands_of_next? hn))
          have hspec := (h.chronicle.lawful hl).end_of_registered reg (by rw [hc]; simp) hp hk
          exact .inl ((told c hc).looks ⟨c, List.mem_singleton_self c, p, hp, hspec⟩)
      placed := fun {k p} hp hw hs => by
        rcases hl.stored hp with ⟨old, hold, hb, hopen⟩ | ⟨hk, hc⟩
        · obtain ⟨ht, hr⟩ := Settings.worksOn_iff.mp hw
          rw [← Promotion.stageKey_of_bare hb] at hs
          rw [← settings.responsible_of_bare hb] at hr
          have hw := Settings.worksOn_iff.mpr ⟨hopen ht, hr⟩
          exact ((h.gates stage).placed hold hw hs).imp id hd.arrivals
        · exact .inr ((told _ hc).arrivals ⟨p, List.mem_singleton_self _, hk⟩) }

theorem news {missed : StageKey → Prop}
    (h : Attended settings tended ((Due.ofNews settings (s.feed.changes.drop position)).also missed)
      s gs) (hp : position ≤ s.feed.front) (hl : s' = s ∨ Store.Lawful s s') :
    Attended settings tended ((Due.ofNews settings (s'.feed.changes.drop position)).also missed)
      s' gs := by
  rcases hl with rfl | hl
  · exact h
  have hdrop (c : Change) (hc : s'.feed.changes = s.feed.changes ++ [c]) :
      s'.feed.changes.drop position = s.feed.changes.drop position ++ [c] := by
    rw [hc, List.drop_append_of_le_length (by rw [Feed.length_changes]; exact hp)]
  refine h.lawful hl (Due.ofNews_le ?_).also fun c hc => (Due.ofNews_le ?_).trans Due.le_also
  · rcases hl.changes with hc | ⟨c, hc⟩
    · rw [hc]; exact fun _ => id
    · rw [hdrop c hc]; exact List.subset_append_left _ _
  · rw [hdrop c hc]; exact List.subset_append_right _ _

end Attended

end StageGate
