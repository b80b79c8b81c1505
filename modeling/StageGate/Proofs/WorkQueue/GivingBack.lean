import StageGate.Proofs.WorkQueue.Ripening

/-!
# Keys that are given back too often

A key may be given back that is in nobody's hands. Main statement: `harmless_unless_asked_for`. That
changes nothing unless the key is asked for at the time; then the key is ready twice, and comes into
the hands of two workers if they just go on taking keys. It does so in no other way.
-/

namespace StageGate.WorkQueue

variable {q : WorkQueue} {j k : PromotionKey}

theorem done_of_not_held (hk : k ∉ q.held) :
    q.done k = if k ∈ q.dirty then { q with ready := q.ready ++ [k] } else q := by
  have hheld : q.held.filter (· ≠ k) = q.held := by
    refine List.filter_eq_self.mpr fun j hj => ?_
    simp only [decide_eq_true_iff]
    rintro rfl
    exact hk hj
  simp only [done, hheld, List.contains_iff_mem]

theorem Sole.close (h : q.Sole k) : q.close.Sole k := ⟨h.once, h.asked⟩

theorem Prompt.kept (k : PromotionKey) : Kept (Prompt · k) where
  add h j := h.add j
  delay h _ _ := h

theorem Prompt.close (h : q.Prompt k) : q.close.Prompt k := h

theorem kept_front (keys : List PromotionKey) : Kept (keys <+: ·.ready) where
  add {q} h k := by
    unfold WorkQueue.add
    split
    · exact h
    · split
      · exact h
      · exact h.trans (List.prefix_append _ _)
  delay h _ _ := h

namespace InUse

variable {u start : InUse} {c : Call} {calls : List Call}

/-- The key that a call gives back while it is in nobody's hands, but asked for. -/
def doubled? (u : InUse) : Call → Option PromotionKey
  | .done key => if !u.hands.contains key && u.queue.dirty.contains key then some key else none
  | _ => none

theorem doubled?_eq_some :
    u.doubled? c = some k ↔ c = .done k ∧ k ∉ u.hands ∧ k ∈ u.queue.dirty := by
  cases c with
  | done key =>
    by_cases hk : key = k
    · subst hk
      simp [doubled?]
    · simp [doubled?, hk]
  | _ => simp [doubled?]

def Doubled (k : PromotionKey) (log : List (Moment InUse Call)) : Prop :=
  ∃ m ∈ log, m.state.doubled? m.act = some k

theorem doubled_concat (k : PromotionKey) (u : InUse) (calls : List Call) (c : Call) :
    Doubled k (u.log (calls ++ [c])) ↔
      Doubled k (u.log calls) ∨ (u.after calls).doubled? c = some k := by
  simp only [Doubled, log_concat, List.mem_append, List.mem_singleton, or_and_right, exists_or,
    exists_eq_left]

-- ---------------------------------------------------------------------------
-- Hands
-- ---------------------------------------------------------------------------

theorem tryGet_cases (u : InUse) :
    (u.queue.ripen u.now).ready = [] ∧
      u.perform .tryGet = { u with queue := u.queue.ripen u.now } ∨
    ∃ k rest, (u.queue.ripen u.now).ready = k :: rest ∧
      u.perform .tryGet =
        { u with queue := (u.queue.ripen u.now).take.2, hands := k :: u.hands } ∧
      (u.queue.ripen u.now).take.2.held = k :: u.queue.held.filter (· ≠ k) := by
  rcases take_cases (u.queue.ripen u.now) with ⟨hr, ht⟩ | ⟨k, rest, hr, ht⟩
  · exact .inl ⟨hr, by simp [InUse.perform, tryGet, ht]⟩
  · exact .inr ⟨k, rest, hr, by simp [InUse.perform, tryGet, ht], by simp [ht]⟩

def Carries (u : InUse) (k : PromotionKey) : Prop := k ∈ u.queue.held → k ∈ u.hands

theorem Carries.perform (h : u.Carries k) (c : Call) : (u.perform c).Carries k := by
  cases c with
  | add key => simpa [Carries, InUse.perform] using h
  | addAfter key delay => simpa [Carries, InUse.perform] using h
  | addRateLimited key stretch => simpa [Carries, InUse.perform] using h
  | tryGet =>
    intro hk
    rcases u.tryGet_cases with ⟨-, ht⟩ | ⟨j, rest, -, ht, hheld⟩
    · simp only [ht, held_ripen] at hk ⊢
      exact h hk
    · simp only [ht, hheld] at hk ⊢
      rcases List.mem_cons.mp hk with rfl | hk
      · exact List.mem_cons_self
      · exact List.mem_cons_of_mem _ (h (List.mem_filter.mp hk).1)
  | done key =>
    intro hk
    obtain ⟨hheld, hne⟩ : k ∈ u.queue.held ∧ k ≠ key := by simpa [InUse.perform] using hk
    exact (List.mem_erase_of_ne hne).mpr (h hheld)
  | _ => exact h

theorem Carries.after (h : u.Carries k) (calls : List Call) : (u.after calls).Carries k :=
  foldl_of_kept (I := (Carries · k)) h fun m _ hm => hm.perform m.act

/-- Giving back a key that is in nobody's hands puts it behind the ready ones if it is asked for, and
does nothing else. -/
theorem perform_done_of_free (free : k ∉ u.hands) (h : u.Carries k) :
    (k ∈ u.queue.dirty → u.perform (.done k) =
      { u with queue := { u.queue with ready := u.queue.ready ++ [k] } }) ∧
    (k ∉ u.queue.dirty → u.perform (.done k) = u) := by
  have hheld : k ∉ u.queue.held := fun hk => free (h hk)
  constructor <;> intro hd <;>
    simp only [InUse.perform, done_of_not_held hheld, hd, if_true, if_false,
      List.erase_of_not_mem free]

/-- In one place at most: ready once and in nobody's hands, or in the hands of one worker. -/
structure Single (u : InUse) (k : PromotionKey) : Prop where
  sole : u.queue.Sole k
  held : k ∈ u.queue.held ↔ k ∈ u.hands
  once : u.hands.count k ≤ 1

namespace Single

theorem feed (h : u.Single k) {queue : WorkQueue} (now : Instant)
    (held : queue.held = u.queue.held) (sole : queue.Sole k) :
    ({ u with queue, now } : InUse).Single k :=
  ⟨sole, by rw [held]; exact h.held, h.once⟩

theorem tryGet (h : u.Single k) : (u.perform .tryGet).Single k := by
  have hripe := (Sole.kept k).ripen h.sole u.now
  rcases u.tryGet_cases with ⟨-, ht⟩ | ⟨j, rest, hr, ht, hheld⟩
  · rw [ht]
    exact h.feed u.now (held_ripen _) hripe
  · rw [ht]
    by_cases hj : j = k
    · subst hj
      have hfree : j ∉ u.hands := by
        rw [← h.held, ← held_ripen u.now]
        exact (hripe.asked (hr ▸ List.mem_cons_self)).2
      exact ⟨hripe.take, by simp [hheld], by simp [List.count_eq_zero.mpr hfree]⟩
    · refine ⟨hripe.take, by simp [hheld, Ne.symm hj, h.held], ?_⟩
      simpa [List.count_cons, hj] using h.once

theorem done (h : u.Single k) (hc : u.doubled? (.done j) ≠ some k) :
    (u.perform (.done j)).Single k := by
  by_cases hj : j = k
  · subst hj
    by_cases hhands : j ∈ u.hands
    · have honce : u.hands.count j ≤ 1 := h.once
      have hgone : (u.hands.erase j).count j = 0 := by
        rw [List.count_erase_self]
        omega
      refine ⟨h.sole.done fun _ => h.held.mpr hhands, ?_, hgone ▸ Nat.zero_le 1⟩
      simp [InUse.perform, List.count_eq_zero.mp hgone]
    · have hdirty : j ∉ u.queue.dirty := fun hd => hc (doubled?_eq_some.mpr ⟨rfl, hhands, hd⟩)
      rw [(perform_done_of_free hhands (fun hheld => h.held.mp hheld)).2 hdirty]
      exact h
  · refine ⟨h.sole.done fun e => absurd e hj, ?_, ?_⟩
    · simp [InUse.perform, Ne.symm hj, List.mem_erase_of_ne (Ne.symm hj), h.held]
    · simpa [InUse.perform, List.count_erase_of_ne (Ne.symm hj)] using h.once

theorem perform (h : u.Single k) (hc : u.doubled? c ≠ some k) : (u.perform c).Single k := by
  cases c with
  | add key => exact h.feed u.now (held_add _ _) (h.sole.add key)
  | addAfter key delay =>
    exact h.feed u.now (held_addAfter _ _) ((Sole.kept k).addAfter h.sole _ _ _)
  | addRateLimited key stretch =>
    exact h.feed u.now (held_addRateLimited _ _) ((Sole.kept k).addRateLimited h.sole _ _ _)
  | forget key => exact h.feed u.now rfl ((Sole.kept k).delay h.sole u.queue.delayed _)
  | tryGet => exact h.tryGet
  | done key => exact h.done hc
  | close => exact h.feed u.now rfl h.sole.close
  | wait nanos => exact h.feed _ rfl h.sole

end Single

theorem single_fresh (backoff : Backoff PromotionKey) (now : Instant) (k : PromotionKey) :
    (fresh backoff now).Single k :=
  ⟨(sound_start backoff).sole k, by simp [fresh], by simp [fresh]⟩

theorem Single.after (h : u.Single k) (never : ¬ Doubled k (u.log calls)) :
    (u.after calls).Single k :=
  foldl_of_kept (I := (Single · k)) h fun m hm hs => hs.perform fun hd => never ⟨m, hm, hd⟩

theorem prompt_after (h : u.queue.Prompt k) (calls : List Call) : (u.after calls).queue.Prompt k :=
  foldl_of_kept (I := fun u : InUse => u.queue.Prompt k) h fun _ _ hm =>
    invariant_perform (Prompt.kept k) Prompt.take Prompt.close hm fun _ _ => hm.done

-- ---------------------------------------------------------------------------
-- Keys in two places
-- ---------------------------------------------------------------------------

theorem Single.twice_ready (h : u.Single k) (hp : u.queue.Prompt k)
    (hc : u.doubled? c = some k) : 1 < (u.perform c).queue.ready.count k := by
  obtain ⟨rfl, hfree, hdirty⟩ := doubled?_eq_some.mp hc
  have hready : k ∈ u.queue.ready := hp hdirty fun hk => hfree (h.held.mp hk)
  have hcount : 0 < u.queue.ready.count k := List.count_pos_iff.mpr hready
  rw [(perform_done_of_free hfree h.held.mp).1 hdirty]
  simpa using hcount

/-- What holds of no key in one place, but of each that is ready twice, comes to hold in a run exactly
if the key is given back so in the run. -/
theorem comes_iff_doubled {P : InUse → Prop} (h : start.Single k) (hp : start.queue.Prompt k)
    (single : ∀ u : InUse, u.Single k → ¬ P u)
    (twice : ∀ u : InUse, 1 < u.queue.ready.count k → P u) :
    (∃ first, first <+: calls ∧ P (start.after first)) ↔ Doubled k (start.log calls) := by
  induction calls using List.reverseRecOn with
  | nil =>
    constructor
    · rintro ⟨first, hfirst, hf⟩
      obtain rfl := List.prefix_nil.mp hfirst
      exact absurd hf (single start h)
    · rintro ⟨m, hm, -⟩
      cases hm
  | append_singleton calls c ih =>
    rw [doubled_concat, ← ih]
    constructor
    · rintro ⟨first, hfirst, hf⟩
      rcases List.prefix_concat_iff.mp hfirst with rfl | hfirst
      · by_cases hd : Doubled k (start.log calls)
        · exact .inl (ih.mpr hd)
        · refine .inr (Decidable.byContradiction fun hc => ?_)
          rw [after_concat] at hf
          exact single _ ((h.after hd).perform hc) hf
      · exact .inl ⟨first, hfirst, hf⟩
    · rintro (⟨first, hfirst, hf⟩ | hc)
      · exact ⟨first, hfirst.trans (List.prefix_append _ _), hf⟩
      · by_cases hd : Doubled k (start.log calls)
        · obtain ⟨first, hfirst, hf⟩ := ih.mpr hd
          exact ⟨first, hfirst.trans (List.prefix_append _ _), hf⟩
        · refine ⟨calls ++ [c], List.prefix_rfl, twice _ ?_⟩
          rw [after_concat]
          exact (h.after hd).twice_ready (prompt_after hp calls) hc

-- ---------------------------------------------------------------------------
-- Workers that take what is ready
-- ---------------------------------------------------------------------------

def taking (n : Nat) : List Call := List.replicate n .tryGet

theorem Single.taking (h : u.Single k) (n : Nat) : (u.after (taking n)).Single k := by
  induction n generalizing u with
  | zero => exact h
  | succ n ih => exact ih h.tryGet

theorem count_hands_taking (n : Nat) (u : InUse) (k : PromotionKey) :
    (u.queue.ready.take n).count k + u.hands.count k ≤ (u.after (taking n)).hands.count k := by
  induction n generalizing u with
  | zero => simp [InUse.taking, InUse.after]
  | succ n ih =>
    have hnext := ih (u.perform .tryGet)
    have hrun : u.after (InUse.taking (n + 1)) = (u.perform .tryGet).after (InUse.taking n) := rfl
    obtain ⟨ripe, hripe⟩ := (kept_front u.queue.ready).ripen List.prefix_rfl u.now
    rw [hrun]
    refine Nat.le_trans ?_ hnext
    rcases u.tryGet_cases with ⟨hr, ht⟩ | ⟨j, rest, hr, ht, -⟩
    · have hnone : u.queue.ready = [] := (List.append_eq_nil_iff.mp (hripe.trans hr)).1
      simp [ht, hnone]
    · have htaken : (u.queue.ripen u.now).take.2.ready = rest := by rw [take, hr]
      rw [hr] at hripe
      simp only [ht, htaken, List.count_cons]
      cases hready : u.queue.ready with
      | nil =>
        simp
        omega
      | cons i ready =>
        rw [hready] at hripe
        obtain ⟨rfl, hrest : ready ++ ripe = rest⟩ := List.cons.inj hripe
        rw [← hrest, List.take_append, List.count_append, List.take_succ_cons, List.count_cons]
        omega

end InUse

open InUse in
/-- After any calls on a new queue, whatever keys they give back: giving back a key that is in
nobody's hands changes nothing exactly if the key is not asked for, and otherwise puts it behind the
ready ones and changes nothing else. At some time of a run the key is ready twice exactly if it was
given back so at some time, while it was asked for. And at some time two workers can get hold of it
by just taking keys exactly if that is so, too; in all other runs it is never in the hands of two. -/
theorem harmless_unless_asked_for {backoff : Backoff PromotionKey} {now : Instant}
    (calls : List Call) (k : PromotionKey) :
    let start := fresh backoff now
    let u := start.after calls
    (k ∉ u.hands →
      (u.perform (.done k) = u ↔ k ∉ u.queue.dirty) ∧
      (k ∈ u.queue.dirty → u.perform (.done k) =
        { u with queue := { u.queue with ready := u.queue.ready ++ [k] } })) ∧
    ((∃ first, first <+: calls ∧ 1 < (start.after first).queue.ready.count k) ↔
      Doubled k (start.log calls)) ∧
    ((∃ first, first <+: calls ∧ ∃ n, 1 < ((start.after first).after (taking n)).hands.count k) ↔
      Doubled k (start.log calls)) := by
  intro start u
  have hstart : start.Single k := single_fresh backoff now k
  have hprompt : start.queue.Prompt k := (sound_start backoff).prompt k
  have hcarries : start.Carries k := hstart.held.mp
  refine ⟨fun hfree => ?_, ?_, ?_⟩
  · obtain ⟨hasked, hclean⟩ := perform_done_of_free hfree (hcarries.after calls)
    refine ⟨⟨fun hsame hdirty => ?_, hclean⟩, hasked⟩
    have hready := congrArg (fun v : InUse => v.queue.ready.length) ((hasked hdirty).symm.trans hsame)
    simp at hready
  · refine comes_iff_doubled hstart hprompt (fun v hv => ?_) fun _ h => h
    exact Nat.not_lt.mpr hv.sole.once
  · refine comes_iff_doubled (P := fun v => ∃ n, 1 < (v.after (taking n)).hands.count k) hstart
      hprompt (fun v hv => ?_) fun v hv => ?_
    · rintro ⟨n, hn⟩
      exact absurd (hv.taking n).once (Nat.not_le.mpr hn)
    · have hhands := count_hands_taking v.queue.ready.length v k
      rw [List.take_length] at hhands
      exact ⟨_, Nat.lt_of_lt_of_le hv (Nat.le_trans (Nat.le_add_right _ _) hhands)⟩

namespace InUse.Sample

def wornOut : List Call :=
  [.add key, .tryGet, .done key, .done key, .add key, .done key]

end InUse.Sample

open InUse InUse.Sample in
theorem harmless_unless_asked_for_sample :
    key ∉ ((fresh quick 0).after (wornOut.take 3)).hands ∧
    ((fresh quick 0).after (wornOut.take 3)).perform (.done key) =
      (fresh quick 0).after (wornOut.take 3) ∧
    key ∉ ((fresh quick 0).after (wornOut.take 5)).hands ∧
    ((fresh quick 0).after (wornOut.take 5)).perform (.done key) ≠
      (fresh quick 0).after (wornOut.take 5) ∧
    ¬ Doubled key ((fresh quick 0).log (wornOut.take 5)) ∧
    (∃ first, first <+: wornOut ∧ 1 < ((fresh quick 0).after first).queue.ready.count key) := by
  have hdone : key ∉ ((fresh quick 0).after (wornOut.take 3)).hands := by decide +kernel
  have hasked : key ∉ ((fresh quick 0).after (wornOut.take 5)).hands := by decide +kernel
  obtain ⟨hearly, -⟩ := @harmless_unless_asked_for quick 0 (wornOut.take 3) key
  obtain ⟨hlate, -⟩ := @harmless_unless_asked_for quick 0 (wornOut.take 5) key
  obtain ⟨-, hready, -⟩ := @harmless_unless_asked_for quick 0 wornOut key
  refine ⟨hdone, (hearly hdone).1.mpr ?_, hasked, fun hsame => ?_, ?_, hready.mpr ?_⟩
  · decide +kernel
  · exact absurd ((hlate hasked).1.mp hsame) (by decide +kernel)
  · unfold Doubled
    decide +kernel
  · unfold Doubled
    decide +kernel

open InUse InUse.Sample in
theorem given_back_untaken :
    let u := (fresh quick 0).after [.add key]
    key ∉ u.hands ∧ u.queue.ready = [key] ∧ (u.perform (.done key)).queue.ready = [key, key] ∧
    ((u.perform (.done key)).after (taking 2)).hands = [key, key] := by
  decide +kernel

end StageGate.WorkQueue
