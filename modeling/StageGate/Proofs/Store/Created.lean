import StageGate.Proofs.Store.History

/-!
# What was created

A promotion keeps all but its version and its status for as long as it is stored, and once it is
deleted its key may be used again. So what is stored under a key is what was created under it last:
`Current`. Main statements: `Wrote.at_key`, what one write does to a key, and `Current.succeeds`,
what stands under a key later on.
-/

namespace StageGate

def Change.created? : Change → Option Promotion
  | .promotionCreated p => some p
  | .promotionUpdated _ _ | .promotionDeleted _ | .applicationUpdated _ _ => none

namespace Store

variable {s s' t : Store} {k : PromotionKey} {p q : Promotion} {c : Change}

def created (s : Store) : List Promotion := s.feed.changes.filterMap Change.created?

def creations (s : Store) (k : PromotionKey) : List Promotion := s.created.filter (·.key = k)

theorem mem_created : p ∈ s.created ↔ .promotionCreated p ∈ s.feed.changes := by
  unfold created
  rw [List.mem_filterMap]
  constructor
  · rintro ⟨c, hc, h⟩
    cases c with
    | promotionCreated q => cases h; exact hc
    | _ => cases h
  · exact fun h => ⟨_, h, rfl⟩

theorem mem_creations : p ∈ s.creations k ↔ p ∈ s.created ∧ p.key = k := by
  simp [creations]

theorem created_emit (feed : s'.feed = s.feed.emit c) :
    s'.created = s.created ++ c.created?.toList := by
  unfold created
  rw [feed, Feed.changes_emit, List.filterMap_append]
  cases c <;> rfl

theorem creations_emit (feed : s'.feed = s.feed.emit c) (none : c.created? = none) :
    s'.creations k = s.creations k := by
  rw [creations, created_emit feed, none]
  simp [creations]

/-- A write leaves what is stored under a key as it is, up to its version and its status, or takes
it away, or it creates another one there under the version that it gives. -/
theorem Wrote.at_key {w : Write} (h : s.Wrote s' w) (keyed : s.Keyed) (k : PromotionKey) :
    (s'.creations k = s.creations k ∧
      ∀ p, s'.promotion? k = some p → ∃ old, s.promotion? k = some old ∧ old.bare = p.bare) ∨
    ∃ p, s'.promotion? k = some p ∧ p.metadata.version = s.nextVersion ∧
      s'.creations k = s.creations k ++ [p] := by
  cases h with
  | created q fresh promotions feed =>
    have hcreated : s'.created = s.created ++ [q.stamped s.nextVersion] := created_emit feed
    have hkey : (q.stamped s.nextVersion).key = q.key := rfl
    rw [creations, hcreated, List.filter_append, promotion?_insert promotions]
    by_cases hk : k = q.key
    · exact .inr ⟨_, if_pos hk, rfl, by simp [creations, hk, hkey]⟩
    · refine .inl ⟨by simp [creations, hkey, Ne.symm hk], fun p hp => ?_⟩
      rw [if_neg hk] at hp
      exact ⟨p, hp, rfl⟩
  | updated key status old new stored given promotions feed =>
    subst given
    refine .inl ⟨creations_emit feed rfl, fun p hp => ?_⟩
    rw [promotion?_insert promotions] at hp
    split at hp
    · next hk =>
      cases hp
      exact ⟨old, by rw [hk, keyed _ _ stored, stored], rfl⟩
    · exact ⟨p, hp, rfl⟩
  | deleted key q stored promotions feed =>
    refine .inl ⟨creations_emit feed rfl, fun p hp => ?_⟩
    rw [promotion?_erase promotions] at hp
    split at hp
    · cases hp
    · exact ⟨p, hp, rfl⟩
  | elsewhere w promotions feed =>
    refine .inl ⟨?_, fun p hp => ⟨p, (promotion?_same promotions k).symm.trans hp, rfl⟩⟩
    rcases feed with feed | ⟨old, new, feed⟩
    · rw [creations, Store.created, feed]
      rfl
    · exact creations_emit feed rfl

/-- What is stored under a key is what was created under it last, up to its version and its status.
-/
def Current (s : Store) : Prop :=
  ∀ k p, s.promotion? k = some p → ∃ c, (s.creations k).getLast? = some c ∧ c.bare = p.bare

theorem current_empty (ns : String) : Current { defaultNamespace := ns } := fun _ _ h => by cases h

theorem Current.keyed (h : s.Current) : s.Keyed := fun k p hp => by
  obtain ⟨c, hc, hb⟩ := h k p hp
  rw [← Promotion.key_of_bare hb]
  exact (mem_creations.mp (List.mem_of_getLast? hc)).2

theorem Current.write (h : s.Current) {w : Write} (hw : s.write w = .ok s') : s'.Current := by
  intro k p hp
  rcases (wrote hw).at_key h.keyed k with ⟨hsame, hold⟩ | ⟨q, hq, -, hnew⟩
  · obtain ⟨old, stored, hb⟩ := hold p hp
    obtain ⟨c, hc, hcb⟩ := h k old stored
    exact ⟨c, hsame ▸ hc, hcb.trans hb⟩
  · obtain rfl : q = p := Option.some.inj (hq.symm.trans hp)
    exact ⟨q, by rw [hnew, List.getLast?_concat], rfl⟩

theorem current_afterAll (ns : String) (ws : List Write) :
    Current (Store.afterAll { defaultNamespace := ns } ws) :=
  afterAll_inv (current_empty ns) (fun h hw => h.write hw) ws

def createdSince (s t : Store) (k : PromotionKey) : List Promotion :=
  (t.creations k).drop (s.creations k).length

/-- What stands under a key later on, if anything does: what was last created there since, or what
stood there already. -/
def successor (s t : Store) (p : Promotion) : Promotion :=
  (s.createdSince t p.key).getLast?.getD p

theorem successor_cases (s t : Store) (p : Promotion) :
    s.successor t p = p ∨ s.successor t p ∈ s.createdSince t p.key := by
  unfold successor
  cases hlast : (s.createdSince t p.key).getLast? with
  | none => exact .inl rfl
  | some c => exact .inr (List.mem_of_getLast? hlast)

theorem Current.succeeds (hs : s.Current) (ht : t.Current)
    (grown : s.creations k <+: t.creations k) (hp : s.promotion? k = some p)
    (hq : t.promotion? k = some q) : q.bare = (s.successor t p).bare := by
  obtain ⟨news, hnews⟩ := grown
  obtain ⟨c, hc, hcb⟩ := hs k p hp
  obtain ⟨d, hd, hdb⟩ := ht k q hq
  have hsince : s.createdSince t p.key = news := by
    rw [createdSince, hs.keyed k p hp, ← hnews, List.drop_left]
  rw [successor, hsince, ← hdb]
  rw [← hnews, List.getLast?_append] at hd
  cases hlast : news.getLast? with
  | none =>
    rw [hlast, Option.none_or, hc] at hd
    cases hd
    exact hcb
  | some e =>
    rw [hlast, Option.some_or] at hd
    cases hd
    rfl

end Store

end StageGate
