import StageGate.Proofs.Gates.Effects

/-!
# Calls on the gates and their history

Any number of clients call on the gates of all stages, and the gates answer one call after the
other, so what the clients do together is one sequence of calls. The history of such a sequence
pairs each call with its reply.
-/

namespace StageGate.Gates

/-- What a client may ask. The checks of a selection may keep a state of their own and may fail. -/
inductive Call : Type 1 where
  | enroll (stage : StageKey) (e : Entry)
  | conclude (stage : StageKey) (key : PromotionKey)
  | select (stage : StageKey) {σ ε : Type} (check : PromotionKey → StateM σ (Except ε Verdict))
      (start : σ)
  | claim (stage : StageKey) (e : Entry)
  | peek (stage : StageKey)
  | pop (stage : StageKey)
  | remove (stage : StageKey) (key : PromotionKey)

inductive Reply : Type 1 where
  | admission (admission : Admission)
  | claim (claim : Claim)
  | flag (done : Bool)
  | key (key? : Option PromotionKey)
  | selection {ε : Type} (selection : Selection ε)

structure Record : Type 1 where
  call : Call
  reply : Reply

def perform (gs : Gates) : Call → Reply × Gates
  | .enroll stage e => (.admission (gs.enroll stage e).1, (gs.enroll stage e).2)
  | .conclude stage key => (.flag (gs.conclude stage key).1, (gs.conclude stage key).2)
  | .select stage check start =>
    let answer := ((gs.select check stage).run start).1
    (.selection answer.1, answer.2)
  | .claim stage e => (.claim (gs.claim stage e).1, (gs.claim stage e).2)
  | .peek stage => (.key (gs.peek? stage), gs)
  | .pop stage => (.key (gs.pop stage).1, (gs.pop stage).2)
  | .remove stage key => (.flag (gs.remove stage key).1, (gs.remove stage key).2)

def after (gs : Gates) (calls : List Call) : Gates := calls.foldl (fun gs c => (gs.perform c).2) gs

def history (gs : Gates) : List Call → List Record
  | [] => []
  | c :: calls => ⟨c, (gs.perform c).1⟩ :: history (gs.perform c).2 calls

theorem history_append (gs : Gates) (first second : List Call) :
    gs.history (first ++ second) = gs.history first ++ (gs.after first).history second := by
  induction first generalizing gs with
  | nil => rfl
  | cons c first ih => simp [history, after, ih]

theorem after_concat (gs : Gates) (calls : List Call) (c : Call) :
    gs.after (calls ++ [c]) = ((gs.after calls).perform c).2 := by
  simp [after]

theorem history_split {gs : Gates} {calls : List Call} {before rest : List Record}
    (h : gs.history calls = before ++ rest) :
    ∃ (later : Gates) (left : List Call), later.history left = rest := by
  induction before generalizing gs calls with
  | nil => exact ⟨gs, calls, h⟩
  | cons r before ih =>
    cases calls with
    | nil => cases h
    | cons c calls => exact ih (List.cons.inj h).2

end StageGate.Gates
