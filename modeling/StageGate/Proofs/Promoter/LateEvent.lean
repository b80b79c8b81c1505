import StageGate.Proofs.Promoter.Written

/-!
# Late news of an end

The promoter hears of a change when it comes to it, and by then the name may stand for something
else. News of an end frees the stage of whoever holds it under that name. Main statement:
`freed_by_late_news`. Where that one has not ended, the feed still holds unheard news that the name
was taken up again. Its claim is lost all the same: `live_claim_lost`.
-/

namespace StageGate

/-- The promotion that a change tells to be open where none of its name was: it was created, or its
end was taken back. -/
def Change.opened? : Change → Option Promotion
  | .promotionCreated p => if p.isTerminal then none else some p
  | .promotionUpdated (some old) (some new) =>
    if old.isTerminal && !new.isTerminal then some new else none
  | _ => none

namespace Store

variable {s s' : Store} {p : Promotion} {k key : PromotionKey} {c d : Change} {later : List Change}

structure Tells (s s' : Store) (d : Change) : Prop where
  changes : s'.feed.changes = s.feed.changes ++ [d]
  opened : ∀ {k}, s.hasEnded k = true → s'.hasEnded k = false →
    ∃ q, d.opened? = some q ∧ q.key = k
  ended : ∀ {p}, d.ended? = some p → s'.hasEnded p.key = true

theorem tells_of (key : PromotionKey) (feed : s'.feed = s.feed.emit d)
    (others : ∀ j, j ≠ key → s'.promotion? j = s.promotion? j)
    (opened : s.hasEnded key = true → s'.hasEnded key = false →
      ∃ q, d.opened? = some q ∧ q.key = key)
    (ended : ∀ p, d.ended? = some p → s'.hasEnded p.key = true) : s.Tells s' d where
  changes := by rw [feed, Feed.changes_emit]
  opened {k} hs hs' := by
    by_cases hk : k = key
    · subst hk
      exact opened hs hs'
    · rw [hasEnded_congr (others k hk), hs] at hs'
      cases hs'
  ended {p} hp := ended p hp

theorem tells_created (promotions : s'.promotions = s.promotions.insert p.key p)
    (feed : s'.feed = s.feed.emit (.promotionCreated p)) : s.Tells s' (.promotionCreated p) := by
  have hp : s'.promotion? p.key = some p := by rw [promotion?_insert promotions, if_pos rfl]
  refine tells_of p.key feed (fun j hj => ?_) (fun _ hs' => ?_) (fun q hq => by cases hq)
  · rw [promotion?_insert promotions, if_neg hj]
  · rw [hasEnded_of_stored hp] at hs'
    exact ⟨p, by simp [Change.opened?, hs'], rfl⟩

theorem tells_deleted (hkey : p.key = key) (promotions : s'.promotions = s.promotions.erase key)
    (feed : s'.feed = s.feed.emit (.promotionDeleted p)) : s.Tells s' (.promotionDeleted p) := by
  have hgone : s'.hasEnded key = true := by simp [hasEnded, promotion?_erase promotions]
  refine tells_of key feed (fun j hj => ?_) (fun _ hs' => ?_) (fun q hq => ?_)
  · rw [promotion?_erase promotions, if_neg hj]
  · rw [hgone] at hs'
    cases hs'
  · cases hq
    rw [hkey]
    exact hgone

theorem tells_updated {old new : Promotion} (stored : s.promotion? key = some old)
    (hkey : new.key = key) (promotions : s'.promotions = s.promotions.insert key new)
    (feed : s'.feed = s.feed.emit (.promotionUpdated (some old) (some new))) :
    s.Tells s' (.promotionUpdated (some old) (some new)) := by
  have hnew : s'.promotion? key = some new := by rw [promotion?_insert promotions, if_pos rfl]
  refine tells_of key feed (fun j hj => ?_) (fun hs hs' => ?_) (fun q hq => ?_)
  · rw [promotion?_insert promotions, if_neg hj]
  · rw [hasEnded_of_stored stored] at hs
    rw [hasEnded_of_stored hnew] at hs'
    exact ⟨new, by simp [Change.opened?, hs, hs'], hkey⟩
  · obtain ⟨⟨-, hend⟩, rfl⟩ : (old.isTerminal = false ∧ new.isTerminal = true) ∧ new = q := by
      simpa [Change.ended?] using hq
    rw [hkey, hasEnded_of_stored hnew, hend]

theorem tells_elsewhere (promotions : s'.promotions = s.promotions) (feed : s'.feed = s.feed.emit d)
    (hd : d.ended? = none) : s.Tells s' d where
  changes := by rw [feed, Feed.changes_emit]
  opened {k} hs hs' := by
    rw [hasEnded_congr (promotion?_same promotions k), hs] at hs'
    cases hs'
  ended hp := by
    rw [hd] at hp
    cases hp

theorem Traced.tells (h : s.Traced) {w : Write} (hw : s.write w = .ok s') :
    s'.feed = s.feed ∧ s'.promotions = s.promotions ∨ ∃ d, s.Tells s' d := by
  cases wrote hw with
  | created p fresh promotions feed =>
    exact .inr ⟨_, tells_created (p := p.stamped s.nextVersion) promotions feed⟩
  | updated key status old new stored given promotions feed =>
    have hkey : old.key = key := h.key_eq stored
    have hnew : new.key = key := given ▸ hkey
    exact .inr ⟨_, tells_updated stored hnew (hkey ▸ promotions) feed⟩
  | deleted key p stored promotions feed =>
    exact .inr ⟨_, tells_deleted (h.key_eq stored) promotions feed⟩
  | elsewhere w promotions feed =>
    rcases feed with feed | ⟨old, new, feed⟩
    · exact .inl ⟨feed, promotions⟩
    · exact .inr ⟨_, tells_elsewhere promotions feed rfl⟩

/-- Whoever is open after the feed told of an end under this name: the feed tells of it later. -/
structure Accounted (s : Store) : Prop where
  traced : s.Traced
  opened : ∀ {c p later}, c :: later <:+ s.feed.changes → c.ended? = some p →
    s.hasEnded p.key = false → ∃ d ∈ later, ∃ q, d.opened? = some q ∧ q.key = p.key

theorem accounted_empty (ns : String) : Accounted { defaultNamespace := ns } where
  traced := traced_empty ns
  opened h := by cases List.suffix_nil.mp h

theorem Accounted.tells (h : s.Accounted) (ht : s.Tells s' d) (hs : c :: later <:+ s'.feed.changes)
    (he : c.ended? = some p) (hopen : s'.hasEnded p.key = false) :
    ∃ d ∈ later, ∃ q, d.opened? = some q ∧ q.key = p.key := by
  rw [ht.changes] at hs
  rcases suffix_concat hs with ⟨rfl, rfl⟩ | ⟨later, rfl, hbefore⟩
  · rw [ht.ended he] at hopen
    cases hopen
  · cases hp : s.hasEnded p.key with
    | true => exact ⟨d, by simp, ht.opened hp hopen⟩
    | false =>
      obtain ⟨e, hm, hq⟩ := h.opened hbefore he hp
      exact ⟨e, List.mem_append_left _ hm, hq⟩

theorem Accounted.write (h : s.Accounted) {w : Write} (hw : s.write w = .ok s') :
    s'.Accounted where
  traced := (h.traced.write hw).traced
  opened {c p later} hs he hopen := by
    rcases h.traced.tells hw with ⟨feed, promotions⟩ | ⟨d, ht⟩
    · rw [feed] at hs
      rw [hasEnded_congr (promotion?_same promotions _)] at hopen
      exact h.opened hs he hopen
    · exact h.tells ht hs he hopen

end Store

-- ---------------------------------------------------------------------------
-- Hearing of an end
-- ---------------------------------------------------------------------------

namespace World

variable {w : World} {c : Change} {p : Promotion}

theorem active?_enqueueNext (h : w.Quiet) (stage other : StageKey) :
    ((enqueueNext stage).run w).2.gates.active? other = w.gates.active? other := by
  obtain ⟨counters, log, hr⟩ := enqueueNext_quiet h stage
  rw [hr]
  show ((w.gates.passEnded w.store.hasEnded stage).gate other).holder = _
  rw [Gates.gate_passEnded]
  split
  · next ho => rw [Gate.holder_passEnded, ← ho]; rfl
  · rfl

/-- News of an end frees the stage if it is held under the name of the one that ended, whoever that
is by now. It frees no other stage. -/
theorem active?_handle_ended (h : w.Quiet) (he : c.ended? = some p) (stage : StageKey) :
    ((handle c).run w).2.gates.active? stage =
      if w.settings.isResponsibleFor p.metadata = true ∧ stage = p.stageKey ∧
        w.gates.active? stage = some p.key then none else w.gates.active? stage := by
  rw [handle_ended he]
  by_cases hr : w.settings.isResponsibleFor p.metadata = true
  · obtain ⟨counters, log, hrun⟩ := release_run p.stageKey p.key w
    have hfreed : World.Quiet
      { w with gates := (w.gates.conclude p.stageKey p.key).2, counters, log } := h
    rw [if_pos hr, hrun, active?_enqueueNext hfreed]
    simp only [hr, true_and]
    exact Gates.active?_conclude p.key
  · simp [hr]

end World

open World

/-- In every state that clients reach who write what they like: where the next change to be heard of
tells of an end and costs a stage its holder, it is the holder's name that the change goes by. The
holder has ended, or else the feed goes on to tell that its name was taken up again. -/
theorem freed_by_late_news {settings : Settings} {ns : String} {s : System}
    (h : System.Reachable .free (.empty settings ns) s) {c : Change} {p : Promotion} {next : Nat}
    (received : s.world.store.feed.receive s.world.position = some (.change c, next))
    (end_ : c.ended? = some p) {stage : StageKey} {k : PromotionKey}
    (held : s.world.gates.active? stage = some k)
    (freed : ((onDelivery (.change c)).run
      { s.world with position := next }).2.gates.active? stage ≠ some k) :
    stage = p.stageKey ∧ k = p.key ∧ (s.world.store.hasEnded k = true ∨
      ∃ d ∈ s.world.store.feed.changes.drop next, ∃ q, d.opened? = some q ∧ q.key = k) := by
  have hread : World.Quiet { s.world with position := next } := (traced_of_reachable h).quiet
  rw [onDelivery_change, active?_handle_ended hread end_, held] at freed
  obtain ⟨-, rfl, hk⟩ : s.world.settings.isResponsibleFor p.metadata = true ∧ stage = p.stageKey ∧
      some k = some p.key := Decidable.byContradiction fun hn => freed (if_neg hn)
  obtain rfl := Option.some.inj hk
  refine ⟨rfl, rfl, ?_⟩
  have haccounted := h.store_inv (Store.accounted_empty ns) fun _ _ _ hs hw => hs.write hw
  cases hopen : s.world.store.hasEnded p.key with
  | true => exact .inl rfl
  | false =>
    obtain ⟨rfl, -, hdrop⟩ := Feed.receive_change received
    have hsuffix : c :: s.world.store.feed.changes.drop (s.world.position + 1) <:+
        s.world.store.feed.changes := hdrop ▸ List.drop_suffix _ _
    exact .inr (haccounted.opened hsuffix end_ hopen)

-- ---------------------------------------------------------------------------
-- A promotion that takes the place of another one
-- ---------------------------------------------------------------------------

namespace System.Sample

/-- The promotion that holds the stage was deleted. The promoter has not heard of it. -/
def unheard : World := written waiting (.delete ⟨"ns", "a"⟩)

theorem unheard_reachable : Reachable .free (.empty {} "argocd") ⟨unheard, []⟩ :=
  reaches_written _ waiting_reachable

def replaced : World :=
  let staged := written unheard (.upsertStage
    { metadata := { ns := "ns", name := "prod", created := ⟨0, 0⟩ } })
  written staged (.create (named "a" "prod"))

theorem replaced_reachable : Reachable .free (.empty {} "argocd") ⟨replaced, []⟩ :=
  reaches_written _ (reaches_written _ unheard_reachable)

/-- Mechanics that are never through with either promotion. -/
def unending : Playbook :=
  (Playbook.set {} "a" [.status (.ofPhase .running)]).set "b" [.status (.ofPhase .running)]

def worked (w : World) : World := ((Run.work ⟨w, unending⟩).getD ⟨w, unending⟩).world

theorem reaches_worked {w : World} (h : Reachable .free (.empty {} "argocd") ⟨w, []⟩) :
    Reachable .free (.empty {} "argocd") ⟨worked w, []⟩ := by
  unfold worked
  cases hw : Run.work ⟨w, unending⟩ with
  | none => exact h
  | some r => exact Run.reaches_work hw trivial h

def resumed : World := worked replaced

theorem resumed_reachable : Reachable .free (.empty {} "argocd") ⟨resumed, []⟩ :=
  reaches_worked replaced_reachable

end System.Sample

open System.Sample in
theorem freed_by_late_news_sample : ∃ s p next stage k,
    System.Reachable .free (.empty {} "argocd") s ∧
    s.world.store.feed.receive s.world.position = some (.change (.promotionDeleted p), next) ∧
    s.world.gates.active? stage = some k ∧ stage = p.stageKey ∧ k = p.key ∧
    s.world.store.hasEnded k = true := by
  have hreceived : unheard.store.feed.receive unheard.position =
      some (.change (.promotionDeleted ((named "a" "prod").stamped 1)), 3) := by decide +kernel
  have hheld : unheard.gates.active? ⟨"ns", "prod"⟩ = some ⟨"ns", "a"⟩ := by decide +kernel
  have hrest : unheard.store.feed.changes.drop 3 = [] := by decide +kernel
  obtain ⟨hstage, hk, hover | ⟨d, hd, -⟩⟩ := freed_by_late_news unheard_reachable hreceived rfl
    hheld (by decide +kernel)
  · exact ⟨_, _, _, _, _, unheard_reachable, hreceived, hheld, hstage, hk, hover⟩
  · have hnone : d ∈ unheard.store.feed.changes.drop 3 := hd
    rw [hrest] at hnone
    cases hnone

open System.Sample in
/-- A running promotion loses its stage by the deletion of another one that had its name. -/
theorem live_claim_lost : ∃ s p q next,
    System.Reachable .free (.empty {} "argocd") s ∧
    s.world.store.feed.receive s.world.position = some (.change (.promotionDeleted p), next) ∧
    s.world.gates.active? q.stageKey = some q.key ∧
    s.world.store.promotion? q.key = some q ∧ q.phase = .running ∧
    ((onDelivery (.change (.promotionDeleted p))).run
      { s.world with position := next }).2.gates.active? q.stageKey = none := by
  refine ⟨_, (named "a" "prod").stamped 1,
    { (named "a" "prod").stamped 5 with status := .ofPhase .running }, 3, resumed_reachable,
    ?_, ?_, ?_, rfl, ?_⟩ <;> decide +kernel

end StageGate
