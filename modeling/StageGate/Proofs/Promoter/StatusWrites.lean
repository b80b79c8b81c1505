import StageGate.Proofs.Promoter.Walks
import StageGate.Proofs.Store.Versions

/-!
# The status writes of an action

An action is made of steps of the promoter's own, of questions to the store and of status writes,
and other writers come between these. `Writes` lists the status writes that a run of an action asks
for, each with the store that it finds and with its answer. An action without any is `Passive`.
`Onward` bounds what becomes of the store meanwhile: a call leads on by as many writes of the
promoter as it succeeds with (`onward_callStore`, `onward_updateStatus`).
-/

namespace StageGate

-- ---------------------------------------------------------------------------
-- What the other writers have left to do
-- ---------------------------------------------------------------------------

def Disturbance.meddlings (d : Disturbance) : Nat := d.before.length + d.after.length

def Stretch.meddlings (s : Stretch) : Nat := (s.more + 1) * s.disturbance.meddlings

def Disturbances.meddlings (d : Disturbances) : Nat := d.stretches.foldr (·.meddlings + ·) 0

theorem Stretch.meddlings_rest (s : Stretch) (later : Nat) :
    s.disturbance.meddlings + s.rest.foldr (·.meddlings + ·) later = s.meddlings + later := by
  rcases s with ⟨call, d, _ | more⟩
  · simp [Stretch.rest, Stretch.meddlings]
  · simp only [Stretch.rest, Stretch.meddlings, List.foldr_cons, List.foldr_nil, Nat.add_mul,
      Nat.one_mul]
    omega

theorem Disturbances.meddlings_rest (d : Disturbances) (call : StoreCall) :
    (d.next call).meddlings + (d.rest call).meddlings = d.meddlings := by
  rcases d with ⟨stretches⟩
  simp only [next, rest, meddlings]
  induction stretches with
  | nil => rfl
  | cons s stretches ih =>
    by_cases h : s.call = call
    · rw [useUp, if_pos h, List.foldr_append]
      simp only [List.find?_cons, h, decide_true, Option.map_some, Option.getD_some]
      exact s.meddlings_rest _
    · rw [useUp, if_neg h]
      simp only [List.find?_cons, h, decide_false, List.foldr_cons]
      omega

namespace Store

variable {s s' : Store} {n m : Nat} {target : Option PromotionKey} {k : PromotionKey}
  {version : UInt64}

theorem Ready.le (h : s.Ready n) (hm : m ≤ n) : s.Ready m :=
  ⟨h.keyed, by have := h.room; omega, h.bounded, h.distinct⟩

theorem meddled (target : Option PromotionKey) (s : Store) (m : Meddling) :
    m.apply target s = s ∨ ∃ w, m.apply target s = s.after w := by
  cases m with
  | write w => exact .inr ⟨w, by cases target <;> rfl⟩
  | delete =>
    cases target with
    | none => exact .inl rfl
    | some key => exact .inr ⟨.delete key, rfl⟩
  | abort =>
    cases target with
    | none => exact .inl rfl
    | some key => exact .inr ⟨_, rfl⟩
  | touch =>
    cases target with
    | none => exact .inl rfl
    | some key =>
      cases hp : s.promotion? key with
      | none => exact .inl (by simp [Meddling.apply, hp])
      | some p => exact .inr ⟨_, by simp only [Meddling.apply, hp]; rfl⟩

theorem Ready.meddled {ms : List Meddling} (h : s.Ready (ms.length + n)) :
    (ms.foldl (Meddling.apply target) s).Ready n ∧
      s.Follows (ms.foldl (Meddling.apply target) s) := by
  induction ms generalizing s with
  | nil => exact ⟨h.le (by simp), .refl s⟩
  | cons m ms ih =>
    have hfirst : s.Ready ((ms.length + n) + 1) := h.le (by rw [List.length_cons]; omega)
    rw [List.foldl_cons]
    rcases Store.meddled target s m with hsame | ⟨w, hw⟩
    · rw [hsame]
      exact ih (hfirst.le (Nat.le_succ _))
    · rw [hw]
      obtain ⟨hready, hfollows⟩ := ih (hfirst.after w)
      exact ⟨hready, (hfirst.follows w).trans hfollows⟩

end Store

/-- One attempt to write a status, with the store as it finds it and the answer that it gets. -/
structure StatusTry where
  store : Store
  key : PromotionKey
  version : UInt64
  status : PromotionStatus
  answer : Except StoreError Promotion

namespace StatusTry

def succeeded (t : StatusTry) : Bool := t.answer.isOk

end StatusTry

namespace World

def found (w : World) (call : StoreCall) (target : Option PromotionKey) : Store :=
  (w.disturbances.next call).before.foldl (Meddling.apply target) w.store

def statusTry (w : World) (key : PromotionKey) (version : UInt64) (status : PromotionStatus) :
    StatusTry where
  store := w.found .updateStatus (some key)
  key := key
  version := version
  status := status
  answer := ((updateStatus key version status).run w).1

def Own (x : Action α) : Prop :=
  ∀ w, (x.run w).2.store = w.store ∧ (x.run w).2.disturbances = w.disturbances

/-- The run of the action from this world asks for these status writes, in this order. -/
inductive Writes : {α : Type} → Action α → World → List StatusTry → Prop where
  | own (step : Own x) : Writes x w []
  | ask {α : Type} {act : Store → Except StoreError α × Store} (other : call ≠ .updateStatus)
      (target : Option PromotionKey) (reads : ∀ s, (act s).2 = s) :
      Writes (callStore call target act) w []
  | update (key : PromotionKey) (version : UInt64) (status : PromotionStatus) :
      Writes (updateStatus key version status) w [w.statusTry key version status]
  | bind (first : Writes x w ts) (rest : Writes (f (x.run w).1) (x.run w).2 us) :
      Writes (x >>= f) w (ts ++ us)

def Fits (w : World) (n : Nat) : Prop := w.store.Ready (w.disturbances.meddlings + n)

/-- Between two worlds the promoter wrote to the store no more often than this; the others wrote
what was laid down. -/
def Onward (own : Nat) (w u : World) : Prop :=
  ∀ n, w.Fits (n + own) → u.Fits n ∧ w.store.Follows u.store

variable {w u v : World} {n : Nat} {key : PromotionKey} {version : UInt64}
  {status : PromotionStatus} {call : StoreCall} {target : Option PromotionKey}

-- ---------------------------------------------------------------------------
-- Calls among other writers
-- ---------------------------------------------------------------------------

theorem callStore_run (call : StoreCall) (target : Option PromotionKey)
    (act : Store → Except StoreError α × Store) (w : World) : (callStore call target act).run w =
      match (w.disturbances.next call).outage with
      | some text => (.error (.unavailable text),
        { w with disturbances := w.disturbances.rest call, store := w.found call target })
      | none => ((act (w.found call target)).1,
        { w with
          disturbances := w.disturbances.rest call
          store := (w.disturbances.next call).after.foldl (Meddling.apply target)
            (act (w.found call target)).2 }) := by
  unfold callStore found
  cases hout : (w.disturbances.next call).outage <;> simp only [StateT.run, hout]

theorem store_readPromotion (key : PromotionKey) (w : World) :
    ((readPromotion key).run w).2.store = ((callStore .readPromotion (some key) fun s =>
      (.ok (s.promotion? key), s)).run w).2.store := by
  unfold readPromotion
  simp only [run_bind, run_get, run_pure]
  unfold concludeRead
  split
  · split <;> rfl
  · rfl

theorem Onward.trans {own own' : Nat} (h : w.Onward own v) (h' : v.Onward own' u) :
    w.Onward (own + own') u := by
  intro n hn
  have hsplit : w.Fits ((n + own') + own) := by
    rwa [Nat.add_assoc, Nat.add_comm own' own]
  obtain ⟨hv, hfollows⟩ := h _ hsplit
  obtain ⟨hu, hfollows'⟩ := h' n hv
  exact ⟨hu, hfollows.trans hfollows'⟩

theorem onward_of_same (store : u.store = w.store)
    (disturbances : u.disturbances = w.disturbances) : w.Onward 0 u := by
  intro n hn
  refine ⟨?_, store ▸ .refl _⟩
  unfold Fits
  rw [store, disturbances]
  exact hn

theorem Fits.found (h : w.Fits n) (call : StoreCall) (target : Option PromotionKey) :
    (w.found call target).Ready
        ((w.disturbances.next call).after.length + ((w.disturbances.rest call).meddlings + n)) ∧
      w.store.Follows (w.found call target) := by
  refine Store.Ready.meddled (h.le ?_)
  have htotal := w.disturbances.meddlings_rest call
  unfold Disturbance.meddlings at htotal
  omega

theorem onward_callStore {act : Store → Except StoreError α × Store} {own : Nat}
    (acts : (w.disturbances.next call).outage = none → ∀ n, (w.found call target).Ready (n + own) →
      (act (w.found call target)).2.Ready n ∧
        (w.found call target).Follows (act (w.found call target)).2) :
    w.Onward own ((callStore call target act).run w).2 := by
  intro n hn
  obtain ⟨hfound, hfollows⟩ := hn.found call target
  rw [callStore_run]
  cases hout : (w.disturbances.next call).outage with
  | some text => exact ⟨hfound.le (by simp only; omega), hfollows⟩
  | none =>
    obtain ⟨hacted, hact⟩ := acts hout
      ((w.disturbances.next call).after.length + ((w.disturbances.rest call).meddlings + n))
      (hfound.le (by omega))
    obtain ⟨hready, hafter⟩ := hacted.meddled
    exact ⟨hready, (hfollows.trans hact).trans hafter⟩

theorem updateStatus_ok {p : Promotion}
    (h : ((updateStatus key version status).run w).1 = .ok p) : ∃ s',
    (w.found .updateStatus (some key)).updateStatus key version status = .ok (p, s') ∧
      ((updateStatus key version status).run w).2.store =
        (w.disturbances.next .updateStatus).after.foldl (Meddling.apply (some key)) s' := by
  unfold updateStatus at h ⊢
  rw [callStore_run] at h ⊢
  cases hout : (w.disturbances.next .updateStatus).outage with
  | some text =>
    rw [hout] at h
    cases h
  | none =>
    simp only [hout] at h ⊢
    cases hs : (w.found .updateStatus (some key)).updateStatus key version status with
    | error e =>
      rw [hs] at h
      cases h
    | ok written =>
      rw [hs] at h
      cases h
      exact ⟨written.2, rfl, rfl⟩

theorem succeeded_iff : (w.statusTry key version status).succeeded = true ↔
    ∃ p, ((updateStatus key version status).run w).1 = .ok p := by
  unfold StatusTry.succeeded statusTry
  cases ((updateStatus key version status).run w).1 <;> simp [Except.isOk, Except.toBool]

theorem statusTry_succeeded (h : (w.statusTry key version status).succeeded = true) :
    ∃ old, (w.found .updateStatus (some key)).promotion? key = some old ∧
      old.metadata.version = version := by
  obtain ⟨p, hp⟩ := succeeded_iff.mp h
  obtain ⟨s', hs, -⟩ := updateStatus_ok hp
  obtain ⟨old, stored, hversion, -⟩ := Store.updateStatus_ok hs
  exact ⟨old, stored, hversion⟩

theorem not_succeeded {cause : StoreError}
    (h : ((updateStatus key version status).run w).1 = .error cause) :
    (w.statusTry key version status).succeeded = false := by
  cases hs : (w.statusTry key version status).succeeded with
  | false => rfl
  | true =>
    obtain ⟨p, hp⟩ := succeeded_iff.mp hs
    rw [h] at hp
    cases hp

theorem onward_updateStatus (w : World) (key : PromotionKey) (version : UInt64)
    (status : PromotionStatus) :
    w.Onward (if (w.statusTry key version status).succeeded then 1 else 0)
      ((updateStatus key version status).run w).2 := by
  cases ha : ((updateStatus key version status).run w).1 with
  | ok p =>
    have hsucceeded : (w.statusTry key version status).succeeded = true :=
      succeeded_iff.mpr ⟨p, ha⟩
    obtain ⟨s', hs, -⟩ := updateStatus_ok ha
    have hafter : (w.found .updateStatus (some key)).after (.updateStatus key version status) =
        s' := Store.after_of_ok (Store.map_snd_ok.mpr ⟨p, hs⟩)
    rw [if_pos hsucceeded]
    refine onward_callStore fun _ n hn => ?_
    simp only [hs]
    exact hafter ▸ ⟨hn.after _, hn.follows _⟩
  | error e =>
    rw [not_succeeded ha]
    refine onward_callStore fun hout n hn => ?_
    unfold updateStatus at ha
    simp only [callStore_run, hout] at ha
    cases hs : (w.found .updateStatus (some key)).updateStatus key version status with
    | ok written =>
      rw [hs] at ha
      cases ha
    | error e => exact ⟨hn, .refl _⟩

variable {x : Action α} {f : α → Action β} {ts : List StatusTry}

-- ---------------------------------------------------------------------------
-- Actions without status writes
-- ---------------------------------------------------------------------------

/-- From wherever it is run, the action asks for no status write and leaves the store to others. -/
structure Passive (x : Action α) : Prop where
  writes : ∀ w : World, Writes x w []
  onward : ∀ w : World, w.Onward 0 (x.run w).2

namespace Passive

theorem own (h : Own x) : Passive x where
  writes _ := .own h
  onward w := onward_of_same (h w).1 (h w).2

theorem pure (a : α) : Passive (Pure.pure a : Action α) := own fun _ => ⟨rfl, rfl⟩

theorem get : Passive (MonadState.get : Action World) := own fun _ => ⟨rfl, rfl⟩

theorem record (r : LogRecord) : Passive (World.record r) := own fun _ => ⟨rfl, rfl⟩

theorem count (up : Counters → Counters) : Passive (World.count up) := own fun _ => ⟨rfl, rfl⟩

theorem atGates (act : Gates → α × Gates) : Passive (World.atGates act) := own fun _ => ⟨rfl, rfl⟩

theorem bind (hx : Passive x) (hf : ∀ a, Passive (f a)) : Passive (x >>= f) where
  writes w := .bind (hx.writes w) ((hf _).writes _)
  onward w := (hx.onward w).trans ((hf _).onward _)

theorem callStore {act : Store → Except StoreError α × Store} (other : call ≠ .updateStatus)
    (reads : ∀ s, (act s).2 = s) : Passive (World.callStore call target act) where
  writes _ := .ask other target reads
  onward w := onward_callStore fun _ n hn => by
    rw [reads]
    exact ⟨hn, .refl _⟩

theorem readStage (key : StageKey) : Passive (World.readStage key) :=
  callStore (by decide) fun _ => rfl

theorem releasing : Releasing @Passive where
  pure := pure
  bind := bind
  record _ := record _
  count _ := count _
  enqueue key := own fun _ => ⟨rfl, rfl⟩
  enqueueRateLimited key := own fun w => by
    rw [run_enqueueRateLimited]
    exact ⟨rfl, rfl⟩
  readPromotion key := Composing.readPromotion ⟨pure, bind⟩ get
    (callStore (by decide) fun _ => rfl) fun _ => atGates _
  seek stage looks := bind get fun w => bind (looks w.gates) fun _ =>
    bind (own fun _ => ⟨rfl, rfl⟩) fun _ => pure _
  conclude _ _ := atGates _

theorem readPromotion (key : PromotionKey) : Passive (World.readPromotion key) :=
  releasing.readPromotion key

theorem release (stage : StageKey) (key : PromotionKey) : Passive (World.release stage key) :=
  releasing.release stage key

theorem claimStage (p : Promotion) : Passive (World.claimStage p) :=
  bind (atGates _) (releasing.heed p)

end Passive

-- ---------------------------------------------------------------------------
-- Following a run
-- ---------------------------------------------------------------------------

def Tries (x : Action α) (w : World) (Q : List StatusTry → α → World → Prop) : Prop :=
  ∃ ts, Writes x w ts ∧ Q ts (x.run w).1 (x.run w).2

variable {Q R : List StatusTry → α → World → Prop} {P : List StatusTry → β → World → Prop}

theorem Tries.mono (h : Tries x w R) (imp : ∀ ts a u, R ts a u → Q ts a u) : Tries x w Q := by
  obtain ⟨ts, hts, hR⟩ := h
  exact ⟨ts, hts, imp _ _ _ hR⟩

theorem Passive.tries (h : Passive x) (w : World) (hQ : Q [] (x.run w).1 (x.run w).2) :
    Tries x w Q := ⟨[], h.writes w, hQ⟩

theorem Tries.bind (hx : Tries x w R)
    (hf : ∀ ts a u, R ts a u → Tries (f a) u fun us b v => P (ts ++ us) b v) :
    Tries (x >>= f) w P := by
  obtain ⟨ts, hts, hR⟩ := hx
  obtain ⟨us, hus, hP⟩ := hf _ _ _ hR
  exact ⟨ts ++ us, .bind hts hus, hP⟩

theorem Passive.tries_bind (hx : Passive x) (hf : Tries (f (x.run w).1) (x.run w).2 P) :
    Tries (x >>= f) w P :=
  (hx.tries w (Q := fun ts a u => ts = [] ∧ a = (x.run w).1 ∧ u = (x.run w).2)
    ⟨rfl, rfl, rfl⟩).bind fun ts a u ⟨hts, ha, hu⟩ => by
      subst hts ha hu
      exact hf

section Attempts

variable {ε : Type} {y : ExceptT ε Action α} {g : α → ExceptT ε Action β}
  {S : List StatusTry → Except ε α → World → Prop} {T : List StatusTry → Except ε β → World → Prop}

theorem run_lift_bind (x : Action α) (g : α → ExceptT ε Action β) :
    ((liftM x : ExceptT ε Action α) >>= g).run = x >>= fun a => (g a).run := rfl

theorem Tries.attempt_bind (hy : Tries y.run w S)
    (ok : ∀ ts a u, S ts (.ok a) u → Tries (g a).run u fun us b v => T (ts ++ us) b v)
    (error : ∀ ts e u, S ts (.error e) u → T ts (.error e) u) : Tries (y >>= g).run w T := by
  rw [ExceptT.run_bind]
  refine hy.bind fun ts a u hS => ?_
  cases a with
  | ok a => exact ok ts a u hS
  | error e =>
    refine (Passive.pure _).tries u ?_
    rw [List.append_nil]
    exact error ts e u hS

theorem Tries.lift_bind (hx : Tries x w Q)
    (hg : ∀ ts a u, Q ts a u → Tries (g a).run u fun us b v => T (ts ++ us) b v) :
    Tries ((liftM x : ExceptT ε Action α) >>= g).run w T := by
  rw [run_lift_bind]
  exact hx.bind hg

theorem Passive.lift_bind (hx : Passive x) (hg : Tries (g (x.run w).1).run (x.run w).2 T) :
    Tries ((liftM x : ExceptT ε Action α) >>= g).run w T := by
  rw [run_lift_bind]
  exact hx.tries_bind hg

end Attempts

end World

end StageGate
