/-!
# Runs, moment by moment

A run is a list of acts, each of which takes a system from one state to the next. Its moments are
the acts with the states in which they are done. Main statements: what every act of a run keeps
holds at the end, and a run can be cut at any of its moments.
-/

namespace StageGate

structure Moment (σ α : Type) where
  state : σ
  act : α

variable {σ α : Type} {step : σ → α → σ} {s : σ} {acts : List α}

def moments (step : σ → α → σ) (s : σ) : List α → List (Moment σ α)
  | [] => []
  | a :: acts => ⟨s, a⟩ :: moments step (step s a) acts

theorem moments_concat (acts : List α) (a : α) : moments step s (acts ++ [a]) =
    moments step s acts ++ [⟨acts.foldl step s, a⟩] := by
  induction acts generalizing s with
  | nil => rfl
  | cons b acts ih => exact congrArg (⟨s, b⟩ :: ·) (ih (s := step s b))

/-- What came at some moment and did not go at a later one, in the order in which it came. -/
def remaining {β : Type} (came : Moment σ α → Option β) (gone : Moment σ α → β → Bool) :
    List (Moment σ α) → List β
  | [] => []
  | m :: later =>
    ((came m).toList.filter fun x => !later.any (gone · x)) ++ remaining came gone later

theorem remaining_concat {β : Type} (came : Moment σ α → Option β)
    (gone : Moment σ α → β → Bool) (earlier : List (Moment σ α)) (m : Moment σ α) :
    remaining came gone (earlier ++ [m]) =
      (remaining came gone earlier).filter (fun x => !gone m x) ++ (came m).toList := by
  induction earlier with
  | nil => simp [remaining]
  | cons e earlier ih =>
    have hlater : ((came e).toList.filter fun x => !(earlier ++ [m]).any (gone · x)) =
        ((came e).toList.filter fun x => !earlier.any (gone · x)).filter fun x => !gone m x := by
      rw [List.filter_filter]
      simp [Bool.and_comm]
    rw [List.cons_append, remaining, remaining, ih, hlater, List.filter_append, List.append_assoc]

theorem foldl_of_kept {I : σ → Prop} (start : I s)
    (kept : ∀ m ∈ moments step s acts, I m.state → I (step m.state m.act)) :
    I (acts.foldl step s) := by
  induction acts generalizing s with
  | nil => exact start
  | cons a acts ih =>
    have hfirst : I (step s a) := kept ⟨s, a⟩ List.mem_cons_self start
    exact ih hfirst fun m hm => kept m (List.mem_cons_of_mem _ hm)

/-- A run cut at a moment: the acts before it lead to its state, and those after it go on from the
state that its act leads to. -/
theorem moments_cut {earlier later : List (Moment σ α)} {m : Moment σ α}
    (h : moments step s acts = earlier ++ m :: later) : ∃ first second,
      acts = first ++ m.act :: second ∧ earlier = moments step s first ∧
      m.state = first.foldl step s ∧ later = moments step (step m.state m.act) second := by
  induction earlier generalizing s acts with
  | nil =>
    cases acts with
    | nil => cases h
    | cons a acts =>
      obtain ⟨rfl, rfl⟩ := List.cons.inj h
      exact ⟨[], acts, rfl, rfl, rfl, rfl⟩
  | cons e earlier ih =>
    cases acts with
    | nil => cases h
    | cons a acts =>
      obtain ⟨rfl, hrest⟩ := List.cons.inj h
      obtain ⟨first, second, rfl, rfl, hstate, hlater⟩ := ih hrest
      exact ⟨a :: first, second, rfl, rfl, hstate, hlater⟩

end StageGate
