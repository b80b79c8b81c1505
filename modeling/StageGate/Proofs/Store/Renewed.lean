import StageGate.Proofs.Promoter.Interference

/-!
# Promotions that start over

A promotion is pending when it is created, as a rule, and not any more once it has run. It starts
over if a client sets it back to pending, or deletes it and creates another one under its key. Main
statement: `Written.count_renewed_lt`, what was created becomes pending in no other way.
-/

namespace StageGate

/-- The promotion that a change makes pending, as far as it is not the first one under its key. -/
def Change.renewed? (earlier : List Change) : Change → Option PromotionKey
  | .promotionCreated p =>
    if p.phase = .pending ∧ ∃ q ∈ earlier.filterMap Change.created?, q.key = p.key then some p.key
    else none
  | .promotionUpdated (some old) (some new) =>
    if old.phase ≠ .pending ∧ new.phase = .pending then some old.key else none
  | _ => none

def Change.renewals : List Change → List PromotionKey
  | [] => []
  | c :: earlier => (c.renewed? earlier).toList ++ renewals earlier

namespace Store

variable {s s' t : Store} {k : PromotionKey} {p : Promotion} {c : Change}

def Pending (s : Store) (k : PromotionKey) : Prop :=
  ∃ p, s.promotion? k = some p ∧ p.phase = .pending

def renewed (s : Store) : List PromotionKey := Change.renewals s.feed.latest

theorem renewed_emit (feed : s'.feed = s.feed.emit c) :
    s'.renewed = (c.renewed? s.feed.latest).toList ++ s.renewed := by
  rw [renewed, feed]
  rfl

theorem Wrote.renews {w : Write} (h : s.Wrote s' w) (keyed : s.Keyed) (created : s.creations k ≠ [])
    (before : ¬ s.Pending k) (after : s'.Pending k) :
    ∃ c, s'.feed = s.feed.emit c ∧ c.renewed? s.feed.latest = some k := by
  obtain ⟨p, hp, hpending⟩ := after
  cases h with
  | created q fresh promotions feed =>
    rw [promotion?_insert promotions] at hp
    split at hp
    · next hk =>
      cases hp
      obtain ⟨first, hfirst⟩ := List.exists_mem_of_ne_nil _ created
      obtain ⟨hcreated, hkey⟩ := mem_creations.mp hfirst
      have hearlier : first ∈ s.feed.latest.filterMap Change.created? := by
        obtain ⟨c, hc, hfirst⟩ := List.mem_filterMap.mp hcreated
        exact List.mem_filterMap.mpr ⟨c, List.mem_reverse.mp hc, hfirst⟩
      refine ⟨_, feed, ?_⟩
      rw [hk, Change.renewed?, if_pos ⟨hpending, first, hearlier, hkey.trans hk⟩]
      rfl
    · exact absurd ⟨p, hp, hpending⟩ before
  | updated key status old new stored given promotions feed =>
    rw [promotion?_insert promotions] at hp
    split at hp
    · next hk =>
      cases hp
      have hold : old.phase ≠ .pending := fun hph =>
        before ⟨old, by rw [hk, keyed _ _ stored, stored], hph⟩
      exact ⟨_, feed, by rw [Change.renewed?, if_pos ⟨hold, hpending⟩, hk]⟩
    · exact absurd ⟨p, hp, hpending⟩ before
  | deleted key q stored promotions feed =>
    rw [promotion?_erase promotions] at hp
    split at hp
    · cases hp
    · exact absurd ⟨p, hp, hpending⟩ before
  | elsewhere w promotions feed =>
    rw [promotion?_same promotions] at hp
    exact absurd ⟨p, hp, hpending⟩ before

theorem Wrote.renewed {w : Write} (h : s.Wrote s' w) : s.renewed <:+ s'.renewed := by
  have hemit {c : Change} (feed : s'.feed = s.feed.emit c) : s.renewed <:+ s'.renewed :=
    renewed_emit feed ▸ List.suffix_append _ _
  cases h with
  | created q fresh promotions feed => exact hemit feed
  | updated key status old new stored given promotions feed => exact hemit feed
  | deleted key q stored promotions feed => exact hemit feed
  | elsewhere w promotions feed =>
    rcases feed with hsame | ⟨old, new, feed⟩
    · have hrenewed : s'.renewed = s.renewed := by
        rw [Store.renewed, hsame, Store.renewed]
      exact hrenewed ▸ List.suffix_refl _
    · exact hemit feed

theorem Written.renewed (h : s.Written t) : s.renewed <:+ t.renewed :=
  h.keeps (P := fun t => s.renewed <:+ t.renewed)
    (fun _ _ _ hs hw => hs.trans (wrote hw).renewed) (List.suffix_refl _)

theorem Written.count_renewed_le (h : s.Written t) (k : PromotionKey) :
    s.renewed.count k ≤ t.renewed.count k := h.renewed.sublist.count_le k

/-- What was created becomes pending by starting over only. -/
theorem Written.count_renewed_lt (h : s.Written t) (keyed : s.Keyed) (created : s.creations k ≠ [])
    (before : ¬ s.Pending k) (after : t.Pending k) : s.renewed.count k < t.renewed.count k := by
  induction h with
  | refl => exact absurd after before
  | @write u v earlier w accepted ih =>
    by_cases hu : u.Pending k
    · exact Nat.lt_of_lt_of_le (ih hu) ((wrote accepted).renewed.sublist.count_le k)
    · have hcreated : u.creations k ≠ [] := (earlier.creations k).ne_nil created
      obtain ⟨c, feed, hc⟩ := (wrote accepted).renews (keyed.written earlier) hcreated hu after
      have hfirst : v.renewed = k :: u.renewed := by
        rw [renewed_emit feed, hc]
        rfl
      rw [hfirst, List.count_cons_self]
      exact Nat.lt_succ_of_le (earlier.count_renewed_le k)

end Store

end StageGate
