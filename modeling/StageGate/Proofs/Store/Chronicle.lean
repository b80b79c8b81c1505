import StageGate.Proofs.Store.Writes

/-!
# The feed as a chronicle

The feed tells what became of every promotion, as long as no key is created twice and no status is
written over a terminal one. `Chronicle` collects what can then be read off it: who was created,
that an end that it tells of is one, and that the end of a promotion that was created open is told
of after its creation. Main statement: `Chronicle.lawful`, every lawful write keeps the chronicle.
-/

namespace StageGate

/-- The promotion that a change tells the end of: it became terminal, or it was deleted. -/
def Change.ended? : Change → Option Promotion
  | .promotionUpdated (some old) (some new) =>
    if !old.isTerminal && new.isTerminal then some new else none
  | .promotionDeleted p => some p
  | _ => none

namespace Store

/-- A promotion has ended once it is terminal, and also once it is gone. -/
def hasEnded (s : Store) (k : PromotionKey) : Bool := (s.promotion? k).all Promotion.isTerminal

def Unused (s : Store) (k : PromotionKey) : Prop :=
  ∀ p, .promotionCreated p ∈ s.feed.changes → p.key ≠ k

/-- What becomes of a store by a write to which a chronicle can be kept. -/
inductive Lawful (s s' : Store) : Prop where
  | created (p : Promotion) (fresh : s.Unused p.key)
      (promotions : s'.promotions = s.promotions.insert p.key p)
      (feed : s'.feed = s.feed.emit (.promotionCreated p))
  | updated (old new : Promotion) (stored : s.promotion? old.key = some old)
      (unended : old.isTerminal = false) (bare : new.bare = old.bare)
      (promotions : s'.promotions = s.promotions.insert old.key new)
      (feed : s'.feed = s.feed.emit (.promotionUpdated (some old) (some new)))
  | deleted (p : Promotion) (stored : s.promotion? p.key = some p)
      (promotions : s'.promotions = s.promotions.erase p.key)
      (feed : s'.feed = s.feed.emit (.promotionDeleted p))
  | elsewhere (promotions : s'.promotions = s.promotions)
      (feed : s'.feed = s.feed ∨ ∃ old new, s'.feed = s.feed.emit (.applicationUpdated old new))

structure Chronicle (s : Store) : Prop where
  key_eq : ∀ {k p}, s.promotion? k = some p → p.key = k
  created : ∀ {k p}, s.promotion? k = some p →
    ∃ q, .promotionCreated q ∈ s.feed.changes ∧ q.bare = p.bare
  once : ∀ {p q}, .promotionCreated p ∈ s.feed.changes → .promotionCreated q ∈ s.feed.changes →
    p.key = q.key → p = q
  born : ∀ {c p}, c ∈ s.feed.changes → c.ended? = some p →
    ∃ q, .promotionCreated q ∈ s.feed.changes ∧ q.bare = p.bare
  past : ∀ {c p}, c ∈ s.feed.changes → c.ended? = some p → s.hasEnded p.key = true
  final : ∀ {q}, .promotionCreated q ∈ s.feed.changes → q.isTerminal = true →
    s.hasEnded q.key = true
  told : ∀ {q rest}, (.promotionCreated q :: rest) <:+ s.feed.changes → q.isTerminal = false →
    s.hasEnded q.key = true → ∃ c ∈ rest, ∃ p, c.ended? = some p ∧ p.key = q.key

variable {s s' : Store} {p q : Promotion} {k : PromotionKey} {c : Change}

theorem hasEnded_of_stored (h : s.promotion? k = some p) : s.hasEnded k = p.isTerminal := by
  simp [hasEnded, h]

theorem stored_of_unended (h : s.hasEnded k = false) :
    ∃ p, s.promotion? k = some p ∧ p.isTerminal = false := by
  cases hp : s.promotion? k with
  | none => simp [hasEnded, hp] at h
  | some p => exact ⟨p, rfl, by simpa [hasEnded, hp] using h⟩

theorem hasEnded_congr (h : s'.promotion? k = s.promotion? k) : s'.hasEnded k = s.hasEnded k := by
  unfold hasEnded; rw [h]

theorem chronicle_empty (ns : String) : Chronicle { defaultNamespace := ns } where
  key_eq h := by cases h
  created h := by cases h
  once h := by cases h
  born h := by cases h
  past h := by cases h
  final h := by cases h
  told h := by cases List.suffix_nil.mp h

-- ---------------------------------------------------------------------------
-- What a lawful write does to one key
-- ---------------------------------------------------------------------------

theorem Lawful.changes (h : Lawful s s') : s'.feed.changes = s.feed.changes ∨
    ∃ c, s'.feed.changes = s.feed.changes ++ [c] := by
  cases h with
  | created p fresh promotions feed => exact .inr ⟨_, by rw [feed, Feed.changes_emit]⟩
  | updated old new stored unended bare promotions feed =>
    exact .inr ⟨_, by rw [feed, Feed.changes_emit]⟩
  | deleted p stored promotions feed => exact .inr ⟨_, by rw [feed, Feed.changes_emit]⟩
  | elsewhere promotions feed =>
    rcases feed with feed | ⟨old, new, feed⟩
    · exact .inl (by rw [feed])
    · exact .inr ⟨_, by rw [feed, Feed.changes_emit]⟩

theorem Lawful.mem_changes (h : Lawful s s') (hc : c ∈ s.feed.changes) : c ∈ s'.feed.changes := by
  rcases h.changes with he | ⟨d, he⟩
  · rw [he]; exact hc
  · rw [he]; exact List.mem_append_left _ hc

theorem front_le (h : s' = s ∨ Lawful s s') : s.feed.front ≤ s'.feed.front := by
  rcases h with rfl | h
  · exact Nat.le_refl _
  · rw [← Feed.length_changes, ← Feed.length_changes]
    rcases h.changes with he | ⟨c, he⟩ <;> simp [he]

theorem Lawful.stored (h : Lawful s s') (hp : s'.promotion? k = some p) :
    (∃ old, s.promotion? k = some old ∧ old.bare = p.bare ∧
      (p.isTerminal = false → old.isTerminal = false)) ∨
    p.key = k ∧ s'.feed.changes = s.feed.changes ++ [.promotionCreated p] := by
  have same {s' : Store} (hs : s'.promotion? k = s.promotion? k) (hp : s'.promotion? k = some p) :
      ∃ old, s.promotion? k = some old ∧ old.bare = p.bare ∧
        (p.isTerminal = false → old.isTerminal = false) :=
    ⟨p, hs ▸ hp, rfl, id⟩
  cases h with
  | created new fresh promotions feed =>
    by_cases hk : k = new.key
    · rw [promotion?_insert promotions, if_pos hk] at hp
      cases hp
      exact .inr ⟨hk.symm, by rw [feed, Feed.changes_emit]⟩
    · exact .inl (same (by rw [promotion?_insert promotions, if_neg hk]) hp)
  | updated old new stored unended bare promotions feed =>
    by_cases hk : k = old.key
    · rw [promotion?_insert promotions, if_pos hk] at hp
      cases hp
      exact .inl ⟨old, hk ▸ stored, bare.symm, fun _ => unended⟩
    · exact .inl (same (by rw [promotion?_insert promotions, if_neg hk]) hp)
  | deleted gone stored promotions feed =>
    by_cases hk : k = gone.key
    · rw [promotion?_erase promotions, if_pos hk] at hp
      cases hp
    · exact .inl (same (by rw [promotion?_erase promotions, if_neg hk]) hp)
  | elsewhere promotions feed => exact .inl (same (promotion?_same promotions k) hp)

theorem Lawful.ended_mono (h : Lawful s s') (hk : ¬ s.Unused k) (he : s.hasEnded k = true) :
    s'.hasEnded k = true := by
  have same {s' : Store} (hs : s'.promotion? k = s.promotion? k) : s'.hasEnded k = true :=
    (hasEnded_congr hs).trans he
  cases h with
  | created new fresh promotions feed =>
    have hne : k ≠ new.key := fun e => hk (e ▸ fresh)
    exact same (by rw [promotion?_insert promotions, if_neg hne])
  | updated old new stored unended bare promotions feed =>
    have hne : k ≠ old.key := fun e => by
      rw [e, hasEnded_of_stored stored, unended] at he; cases he
    exact same (by rw [promotion?_insert promotions, if_neg hne])
  | deleted gone stored promotions feed =>
    by_cases hk : k = gone.key
    · simp [hasEnded, promotion?_erase promotions, hk]
    · exact same (by rw [promotion?_erase promotions, if_neg hk])
  | elsewhere promotions feed => exact same (promotion?_same promotions k)

theorem Lawful.ends (h : Lawful s s') (hc : s.Chronicle) (ho : s.hasEnded k = false)
    (he : s'.hasEnded k = true) : ∃ c p, s'.feed.changes = s.feed.changes ++ [c] ∧
      c.ended? = some p ∧ p.key = k := by
  have same (hs : s'.promotion? k = s.promotion? k) : False := by
    rw [hasEnded_congr hs, ho] at he; cases he
  cases h with
  | created new fresh promotions feed =>
    by_cases hk : k = new.key
    · obtain ⟨p, hp, -⟩ := stored_of_unended ho
      obtain ⟨q, hq, hb⟩ := hc.created hp
      exact absurd (Promotion.key_of_bare hb |>.trans (hc.key_eq hp) |>.trans hk) (fresh q hq)
    · exact (same (by rw [promotion?_insert promotions, if_neg hk])).elim
  | updated old new stored unended bare promotions feed =>
    by_cases hk : k = old.key
    · have hn : new.isTerminal = true := by
        simpa [hasEnded, promotion?_insert promotions, hk] using he
      exact ⟨_, new, by rw [feed, Feed.changes_emit], by simp [Change.ended?, unended, hn],
        (Promotion.key_of_bare bare).trans hk.symm⟩
    · exact (same (by rw [promotion?_insert promotions, if_neg hk])).elim
  | deleted gone stored promotions feed =>
    by_cases hk : k = gone.key
    · exact ⟨_, gone, by rw [feed, Feed.changes_emit], rfl, hk.symm⟩
    · exact (same (by rw [promotion?_erase promotions, if_neg hk])).elim
  | elsewhere promotions feed => exact (same (promotion?_same promotions k)).elim

-- ---------------------------------------------------------------------------
-- Every lawful write keeps the chronicle
-- ---------------------------------------------------------------------------

theorem suffix_concat {l rest : List α} {x y : α} (h : x :: rest <:+ l ++ [y]) :
    x = y ∧ rest = [] ∨ ∃ rest', rest = rest' ++ [y] ∧ x :: rest' <:+ l := by
  obtain ⟨front, h⟩ := h
  rcases List.eq_nil_or_concat rest with rfl | ⟨rest', last, rfl⟩
  · obtain ⟨-, h⟩ := List.append_inj' h rfl
    exact .inl ⟨(List.cons.inj h).1, rfl⟩
  · rw [List.concat_eq_append, ← List.cons_append, ← List.append_assoc] at h
    obtain ⟨hl, hy⟩ := List.append_inj' h rfl
    exact .inr ⟨rest', by rw [← (List.cons.inj hy).1, List.concat_eq_append], ⟨front, hl⟩⟩

theorem Lawful.creation (h : Lawful s s') (hq : .promotionCreated q ∈ s'.feed.changes) :
    .promotionCreated q ∈ s.feed.changes ∨
      s.Unused q.key ∧ s'.promotion? q.key = some q := by
  cases h with
  | created p fresh promotions feed =>
    rw [feed, Feed.changes_emit] at hq
    rcases List.mem_append.mp hq with hq | hq
    · exact .inl hq
    · obtain rfl : q = p := by simpa using hq
      exact .inr ⟨fresh, by rw [promotion?_insert promotions, if_pos rfl]⟩
  | updated old new stored unended bare promotions feed =>
    rw [feed, Feed.changes_emit] at hq
    exact .inl (by simpa using hq)
  | deleted p stored promotions feed =>
    rw [feed, Feed.changes_emit] at hq
    exact .inl (by simpa using hq)
  | elsewhere promotions feed =>
    rcases feed with feed | ⟨old, new, feed⟩
    · exact .inl (feed ▸ hq)
    · rw [feed, Feed.changes_emit] at hq
      exact .inl (by simpa using hq)

theorem Lawful.last_creation (h : Lawful s s')
    (hd : s'.feed.changes = s.feed.changes ++ [.promotionCreated q]) :
    s'.promotion? q.key = some q := by
  have last {c : Change} (feed : s'.feed = s.feed.emit c) : c = .promotionCreated q := by
    rw [feed, Feed.changes_emit] at hd
    exact List.singleton_inj.mp (List.append_cancel_left hd)
  cases h with
  | created p fresh promotions feed =>
    obtain rfl : p = q := by simpa using last feed
    rw [promotion?_insert promotions, if_pos rfl]
  | updated old new stored unended bare promotions feed => cases last feed
  | deleted p stored promotions feed => cases last feed
  | elsewhere promotions feed =>
    rcases feed with feed | ⟨old, new, feed⟩
    · rw [feed] at hd
      simp at hd
    · cases last feed

theorem Lawful.ending (h : Lawful s s') (hm : c ∈ s'.feed.changes) (he : c.ended? = some p) :
    c ∈ s.feed.changes ∨ s'.hasEnded p.key = true ∧
      ∃ old, s.promotion? p.key = some old ∧ old.bare = p.bare := by
  have last {d : Change} (feed : s'.feed = s.feed.emit d) (hd : c = d → s'.hasEnded p.key = true ∧
      ∃ old, s.promotion? p.key = some old ∧ old.bare = p.bare) :
      c ∈ s.feed.changes ∨ s'.hasEnded p.key = true ∧
        ∃ old, s.promotion? p.key = some old ∧ old.bare = p.bare := by
    rw [feed, Feed.changes_emit] at hm
    rcases List.mem_append.mp hm with hm | hm
    · exact .inl hm
    · exact .inr (hd (List.mem_singleton.mp hm))
  cases h with
  | created new fresh promotions feed =>
    refine last feed ?_
    rintro rfl
    cases he
  | updated old new stored unended bare promotions feed =>
    refine last feed ?_
    rintro rfl
    obtain ⟨ht, rfl⟩ : new.isTerminal = true ∧ new = p := by
      simpa [Change.ended?, unended] using he
    have hkey := Promotion.key_of_bare bare
    exact ⟨by simp [hasEnded, promotion?_insert promotions, hkey, ht], old, hkey ▸ stored,
      bare.symm⟩
  | deleted gone stored promotions feed =>
    refine last feed ?_
    rintro rfl
    cases he
    exact ⟨by simp [hasEnded, promotion?_erase promotions], p, stored, rfl⟩
  | elsewhere promotions feed =>
    rcases feed with feed | ⟨old, new, feed⟩
    · exact .inl (feed ▸ hm)
    · refine last feed ?_
      rintro rfl
      cases he

theorem Chronicle.told_of_lawful (hc : s.Chronicle) (h : Lawful s s') {rest : List Change}
    (hsuf : .promotionCreated q :: rest <:+ s'.feed.changes) (ht : q.isTerminal = false)
    (he : s'.hasEnded q.key = true) : ∃ c ∈ rest, ∃ p, c.ended? = some p ∧ p.key = q.key := by
  -- The creation was told before, or it is the last change and nothing has ended since.
  have step {rest' : List Change} (hsuf : .promotionCreated q :: rest' <:+ s.feed.changes)
      {d : Change} (hd : s'.feed.changes = s.feed.changes ++ [d]) :
      ∃ c ∈ rest' ++ [d], ∃ p, c.ended? = some p ∧ p.key = q.key := by
    cases ho : s.hasEnded q.key with
    | true =>
      obtain ⟨c, hm, hp⟩ := hc.told hsuf ht ho
      exact ⟨c, List.mem_append_left _ hm, hp⟩
    | false =>
      obtain ⟨c, p, hf, hp⟩ := h.ends hc ho he
      have hcd : c = d := by
        obtain ⟨-, hl⟩ := List.append_inj' (hf.symm.trans hd) rfl
        exact List.singleton_inj.mp hl
      exact ⟨d, by simp, p, hcd ▸ hp⟩
  rcases h.changes with hd | ⟨d, hd⟩
  · rw [hd] at hsuf
    have ho : s.hasEnded q.key = true := by
      cases ho : s.hasEnded q.key with
      | true => rfl
      | false =>
        obtain ⟨c, p, hf, -⟩ := h.ends hc ho he
        rw [hd] at hf
        simp at hf
    exact hc.told hsuf ht ho
  · rw [hd] at hsuf
    rcases suffix_concat hsuf with ⟨rfl, rfl⟩ | ⟨rest', rfl, hs'⟩
    · rw [hasEnded_of_stored (h.last_creation hd), ht] at he
      cases he
    · exact step hs' hd

theorem Chronicle.lawful (hc : s.Chronicle) (h : Lawful s s') : s'.Chronicle where
  key_eq {k p} hp := by
    rcases h.stored hp with ⟨old, hold, hb, -⟩ | ⟨hk, -⟩
    · exact (Promotion.key_of_bare hb).symm.trans (hc.key_eq hold)
    · exact hk
  created {k p} hp := by
    rcases h.stored hp with ⟨old, hold, hb, -⟩ | ⟨-, hf⟩
    · obtain ⟨q, hq, hqb⟩ := hc.created hold
      exact ⟨q, h.mem_changes hq, hqb.trans hb⟩
    · exact ⟨p, by rw [hf]; simp, rfl⟩
  once {p q} hp hq hk := by
    rcases h.creation hp with hp | ⟨hpu, hps⟩ <;> rcases h.creation hq with hq | ⟨hqu, hqs⟩
    · exact hc.once hp hq hk
    · exact absurd hk (hqu p hp)
    · exact absurd hk.symm (hpu q hq)
    · rw [hk, hqs] at hps
      exact (Option.some.inj hps).symm
  born {c p} hm he := by
    rcases h.ending hm he with hm | ⟨-, old, hold, hb⟩
    · obtain ⟨q, hq, hqb⟩ := hc.born hm he
      exact ⟨q, h.mem_changes hq, hqb⟩
    · obtain ⟨q, hq, hqb⟩ := hc.created hold
      exact ⟨q, h.mem_changes hq, hqb.trans hb⟩
  past {c p} hm he := by
    rcases h.ending hm he with hm | ⟨hover, -⟩
    · obtain ⟨q, hq, hqb⟩ := hc.born hm he
      exact h.ended_mono (fun hu => hu q hq (Promotion.key_of_bare hqb)) (hc.past hm he)
    · exact hover
  final {q} hq ht := by
    rcases h.creation hq with hq | ⟨-, hs⟩
    · exact h.ended_mono (fun hu => hu q hq rfl) (hc.final hq ht)
    · rw [hasEnded_of_stored hs, ht]
  told hsuf ht he := hc.told_of_lawful h hsuf ht he

theorem Chronicle.next (hc : s.Chronicle) (h : s' = s ∨ Lawful s s') : s'.Chronicle := by
  rcases h with rfl | h
  · exact hc
  · exact hc.lawful h

end Store

-- ---------------------------------------------------------------------------
-- The writes that are lawful
-- ---------------------------------------------------------------------------

/-- A writer that creates no key twice and leaves terminal promotions as they are. -/
def Write.Respects (s : Store) : Write → Prop
  | .create p => s.Unused p.key
  | .updateStatus key _ _ => ∀ p, s.promotion? key = some p → p.isTerminal = false
  | .delete _ | .upsertStage _ | .upsertApplication _ => True

namespace Store

variable {s s' : Store} {p : Promotion} {k : PromotionKey}

theorem Chronicle.write (hc : s.Chronicle) {w : Write} (hw : w.Respects s)
    (h : s.write w = .ok s') : Lawful s s' := by
  cases wrote h with
  | created p fresh promotions feed =>
    exact .created (p.stamped s.nextVersion) hw promotions feed
  | updated key status old new stored given promotions feed =>
    have hk := hc.key_eq stored
    exact .updated old new (hk ▸ stored) (hw old stored) (given ▸ rfl) promotions feed
  | deleted key p stored promotions feed =>
    have hk := hc.key_eq stored
    exact .deleted p (hk ▸ stored) (hk ▸ promotions) feed
  | elsewhere w promotions feed => exact .elsewhere promotions feed

theorem Chronicle.updateStatus (hc : s.Chronicle) {version : UInt64} {status : PromotionStatus}
    (hu : ∀ p, s.promotion? k = some p → p.isTerminal = false)
    (h : s.updateStatus k version status = .ok (p, s')) : Lawful s s' :=
  hc.write (w := .updateStatus k version status) hu (map_snd_ok.mpr ⟨p, h⟩)

/-- Where it was accepted, a new status is all that changes, apart from the version. -/
theorem Chronicle.updateStatus_spec (hc : s.Chronicle) {version : UInt64} {status : PromotionStatus}
    (h : s.updateStatus k version status = .ok (p, s')) :
    (∃ old, s.promotion? k = some old ∧ p.bare = old.bare) ∧ p.status = status ∧
      s'.stages = s.stages ∧ ∀ j, s'.promotion? j = if j = k then some p else s.promotion? j := by
  obtain ⟨old, hold, -, rfl, promotions, stages, -⟩ := updateStatus_ok h
  refine ⟨⟨old, hold, rfl⟩, rfl, stages, fun j => ?_⟩
  rw [promotion?_insert promotions, hc.key_eq hold]

theorem Chronicle.after (hc : s.Chronicle) {w : Write} (hw : w.Respects s) :
    s.after w = s ∨ Lawful s (s.after w) :=
  (after_cases s w).imp id (hc.write hw)

end Store

-- ---------------------------------------------------------------------------
-- Reading the feed
-- ---------------------------------------------------------------------------

namespace Feed

variable {f : Feed} {position next missed : Nat} {c : Change}

theorem receive_change (h : f.receive position = some (.change c, next)) :
    next = position + 1 ∧ position < f.front ∧
      f.changes.drop position = c :: f.changes.drop (position + 1) := by
  by_cases hheld : position < f.oldestHeld
  · simp [receive, hheld] at h
  · rw [receive_of_held (Nat.not_lt.mp hheld)] at h
    obtain ⟨d, hd, h⟩ := Option.map_eq_some_iff.mp h
    cases h
    obtain ⟨hlt, hget⟩ := List.getElem?_eq_some_iff.mp hd
    refine ⟨rfl, by rw [← length_changes]; exact hlt, ?_⟩
    rw [List.drop_eq_getElem_cons hlt, hget]

theorem mem_of_receive (h : f.receive position = some (.change c, next)) : c ∈ f.changes := by
  have hdrop : c ∈ f.changes.drop position := by
    rw [(receive_change h).2.2]
    exact List.mem_cons_self
  exact List.mem_of_mem_drop hdrop

theorem receive_lagged (h : f.receive position = some (.lagged missed, next)) :
    next ≤ f.front := by
  unfold receive at h
  split at h
  · cases h
    exact Nat.sub_le _ _
  · split at h
    · obtain ⟨_, -, h⟩ := Option.map_eq_some_iff.mp h
      cases h
    · cases h

theorem receive_none (h : f.receive position = none) (hp : position ≤ f.front) :
    position = f.front := by
  unfold receive at h
  split at h
  · cases h
  · split at h
    · next hlt =>
      have hlen : f.front - 1 - position < f.latest.length := by rw [← f.front_eq]; omega
      rw [List.getElem?_eq_getElem hlen] at h
      cases h
    · omega

end Feed

end StageGate
