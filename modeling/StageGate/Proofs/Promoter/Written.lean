import StageGate.Proofs.Promoter.Known

/-!
# What runs do to the store

The promoter hears of changes without writing anything, and an attempt writes statuses like any
other client. So whatever every accepted write keeps of a store is kept by every run, whoever the
clients are: `System.Reachable.store_inv`.
-/

namespace StageGate

/-- A store comes of another one by writes that were accepted. -/
inductive Store.Written (s : Store) : Store → Prop where
  | refl : Written s s
  | write (earlier : Written s t) (w : Write) (accepted : t.write w = .ok u) : Written s u

namespace Store

variable {s t u : Store}

theorem Written.trans (h : s.Written t) (h' : t.Written u) : s.Written u := by
  induction h' with
  | refl => exact h
  | write earlier w accepted ih => exact ih.write w accepted

theorem written_after (s : Store) (w : Write) : s.Written (s.after w) := by
  rcases s.after_cases w with he | he
  · rw [he]
    exact .refl
  · exact .write .refl w he

theorem written_updateStatus {k : PromotionKey} {version : UInt64} {status : PromotionStatus}
    (h : s.updateStatus k version status = .ok (p, t)) : s.Written t :=
  .write .refl (.updateStatus k version status) (map_snd_ok.mpr ⟨p, h⟩)

theorem Written.keeps {P : Store → Prop} (h : s.Written t)
    (write : ∀ s w s', P s → s.write w = .ok s' → P s') (hs : P s) : P t := by
  induction h with
  | refl => exact hs
  | write earlier w accepted ih => exact write _ w _ ih accepted

end Store

namespace World

variable {w u : World}

theorem written_tried (h : w.Quiet) {mechanics : Mechanics} {key : PromotionKey}
    {outcome : Except ReconcileError Outcome} (ht : Tried mechanics key w outcome u) :
    w.store.Written u.store := by
  rcases keeps_tried h ht with
    hk | ⟨p, running, s, s', counters, log, -, -, -, marked, concluded, rfl⟩
  · rw [hk.store]
    exact .refl
  · have hmarked : w.store.Written s := by
      cases marked with
      | marked pending write => exact Store.written_updateStatus write
      | kept open_ => exact .refl
    have hconcluded : s.Written s' := by
      cases concluded with
      | ended end_ write => exact Store.written_updateStatus write
      | unfinished open_ again => exact .refl
    exact hmarked.trans hconcluded

end World

namespace System

variable {rules : Rules} {settings : Settings} {ns : String} {s s' : System}

open World in
theorem Step.written (h : s.world.Traced) (hs : Step rules s s') :
    s.world.store.Written s'.world.store := by
  cases hs with
  | write ask allowed => exact Store.written_after _ _
  | deliver received =>
    rw [(learns_delivered h.quiet received).store]
    exact .refl
  | take taken =>
    rw [run_takeKey] at taken
    cases taken
    exact .refl
  | attempt key mechanics employed job tried =>
    have hkey (p : Promotion) (hp : s.world.store.promotion? key = some p) : p.key = key :=
      h.store.key_eq hp
    have ht := reconcile_quiet h.quiet hkey mechanics
    rw [tried] at ht
    exact written_tried h.quiet ht
  | report key outcome job =>
    obtain ⟨counters, log, hr⟩ := onOutcome_run key outcome s.world
    rw [hr]
    exact .refl
  | giveBack key job => exact .refl
  | elapse now onward => exact .refl
  | retime delayed same => exact .refl

theorem Reachable.store_inv {P : Store → Prop} (h : Reachable .free (.empty settings ns) s)
    (empty : P { defaultNamespace := ns })
    (write : ∀ s w s', P s → s.write w = .ok s' → P s') : P s.world.store := by
  induction h with
  | start => exact empty
  | step reached step ih =>
    exact (step.written (World.traced_of_reachable reached)).keeps write ih

end System

end StageGate
