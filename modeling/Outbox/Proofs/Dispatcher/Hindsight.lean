import Outbox.Proofs.Dispatcher.Loops
import Outbox.Proofs.Pass.Solo

/-!
# What was seen before

Nothing that a dispatcher does depends on what was seen before.
-/

namespace Outbox

/-- The host's answers do not depend on what `f` changes, and leave it as it is. -/
structure Host.Blind {ω : Type} (h : Host ω) (f : ω → ω) : Prop where
  now : ∀ w, h.now (f w) = h.now w
  call : ∀ {a : Answer} (c : Call a) w, h.call c (f w) = ((h.call c w).1, f (h.call c w).2)
  send : ∀ m w, h.send m (f w) = ((h.send m w).1, f (h.send m w).2)
  log : ∀ w e, h.log (f w) e = f (h.log w e)

theorem Host.Blind.logAll {ω : Type} {h : Host ω} {f : ω → ω} (hf : h.Blind f) (w : ω)
    (entries : List LogEntry) : h.logAll (f w) entries = f (h.logAll w entries) := by
  induction entries generalizing w with
  | nil => rfl
  | cons e es ih =>
      show h.logAll (h.log (f w) e) es = f (h.logAll (h.log w e) es)
      rw [hf.log, ih]

theorem Pass.advance_blind {ω : Type} {h : Host ω} {f : ω → ω} (hf : h.Blind f) (s : Settings) (p : Pass)
    (w : ω) : p.advance h s (f w) = ((p.advance h s w).1, f (p.advance h s w).2) := by
  fun_induction advance h s p w with
  | case1 p w hp => exact advance_over hp
  | case2 p w resume hp ht => exact advance_timeless hp ((hf.now w).trans ht)
  | case3 p w resume hp t ht _ ih => rw [advance_now hp ((hf.now w).trans ht), ih]
  | case4 p w a c resume hp answer w' he _ ih => rw [advance_call hp, hf.call, hf.logAll, he, ih]
  | case5 p w m resume hp w' ha =>
      have hs := hf.send m w
      rw [ha] at hs
      exact advance_unanswered hp hs
  | case6 p w m resume hp a w' ha _ ih =>
      have hs := hf.send m w
      rw [ha] at hs
      rw [advance_send hp hs, ih]

theorem Sweep.run_blind {ω : Type} {h : Host ω} {f : ω → ω} (hf : h.Blind f) (s : Sweep) (w : ω) :
    s.run h (f w) = ((s.run h w).1, f (s.run h w).2) := by
  unfold run
  rw [hf.now]
  cases h.now w with
  | none => rfl
  | some now =>
      simp only [hf.call]
      cases h.call (s.call (now.before s.age)) w with
      | mk answer u =>
          cases answer with
          | error e => rfl
          | ok n =>
              dsimp only
              split
              · rfl
              · rw [hf.log]

namespace Trial

/-- The same moment, if that had been seen before. -/
def since (es : List Event) (t : Trial) : Trial := { t with seen := t.seen ++ es }

/-- What does not depend on what was seen before only adds to it. -/
theorem seen_of_since {α : Type} {f : Trial → α × Trial}
    (hf : ∀ es t, f (t.since es) = ((f t).1, (f t).2.since es)) (t : Trial) :
    ∃ es, (f t).2.seen = es ++ t.seen := by
  have hsince : t = ({ t with seen := [] } : Trial).since t.seen := rfl
  refine ⟨(f { t with seen := [] }).2.seen, ?_⟩
  conv_lhs => rw [hsince, hf]
  rfl

variable {es : List Event} {t : Trial}

theorem since_foldl {α : Type} {f : Trial → α → Trial} (hf : ∀ t a, f (t.since es) a = (f t a).since es)
    (as : List α) (t : Trial) : as.foldl f (t.since es) = (as.foldl f t).since es := by
  induction as generalizing t with
  | nil => rfl
  | cons a as ih =>
      rw [List.foldl_cons, hf, ih, List.foldl_cons]

theorem log_since (t : Trial) (e : LogEntry) : (t.since es).log e = (t.log e).since es := rfl

theorem effect_since (t : Trial) (a : Access) : (t.since es).effect a = (t.effect a).since es := rfl

theorem call_since (owner : String) {a : Answer} (c : Call a) (t : Trial) :
    (t.since es).call owner c = ((t.call owner c).1, (t.call owner c).2.since es) := by
  unfold call since
  dsimp only
  split <;> rfl

theorem handOver_since (owner : String) (m : Message) (t : Trial) :
    (t.since es).handOver owner m = ((t.handOver owner m).1, (t.handOver owner m).2.since es) := by
  exact Prod.ext rfl (since_foldl (f := log) log_since (t.broker.take m).2.1
    (({ t with broker := (t.broker.take m).2.2 } : Trial).see (.send owner m)))

theorem sendOrWait_since (owner : String) (m : Message) (t : Trial) :
    (t.since es).sendOrWait owner m = ((t.sendOrWait owner m).1, (t.sendOrWait owner m).2.since es) := by
  unfold sendOrWait
  rw [handOver_since]
  dsimp only
  split
  · rfl
  · rw [since_foldl effect_since]

theorem patientHost_blind (owner : String) (es : List Event) : (patientHost owner).Blind (since es) where
  now _ := rfl
  call := call_since owner
  send := sendOrWait_since owner
  log _ _ := rfl

end Trial

namespace Dispatcher

variable {d : Dispatcher} {es : List Event}

theorem deliver_since (p : Pass) (t : Trial) :
    d.deliver p (t.since es) = ((d.deliver p t).1, (d.deliver p t).2.since es) := by
  have hadvance := p.advance_blind (Trial.patientHost_blind d.name es) d.settings { t with awaited := none }
  unfold deliver
  rw [show { t.since es with awaited := none } = ({ t with awaited := none } : Trial).since es from rfl, hadvance]
  cases p.advance (Trial.patientHost d.name) d.settings { t with awaited := none } with
  | mk p' t' =>
      have hawaited : (t'.since es).awaited = t'.awaited := rfl
      dsimp only
      rw [hawaited]
      cases t'.awaited with
      | some o => rfl
      | none =>
          cases p'.result? with
          | none => rfl
          | some result =>
              cases result with
              | error e => rfl
              | ok report =>
                  dsimp only
                  split <;> rfl

theorem sweep_since (s : Sweep) (t : Trial) :
    d.sweep s (t.since es) = ((d.sweep s t).1, (d.sweep s t).2.since es) := by
  unfold sweep
  rw [s.run_blind (Trial.patientHost_blind d.name es)]

theorem iterate_since (task : Task) (t : Trial) :
    d.iterate task (t.since es) = ((d.iterate task t).1, (d.iterate task t).2.since es) := by
  cases task with
  | processor => exact deliver_since _ t
  | unlocker | cleaner => exact sweep_since _ t

theorem resume_since (p : Pass) (o : Outcome) (t : Trial) :
    d.resume p o (t.since es) = ((d.resume p o t).1, (d.resume p o t).2.since es) := by
  unfold resume
  rw [Trial.since_foldl Trial.effect_since, deliver_since]

theorem report_since (task : Task) (t : Trial) (ending : Except OutboxError Unit) :
    report task (t.since es) ending = (report task t ending).since es := by
  cases ending <;> rfl

end Dispatcher

/-- A loop gets on in the same way, whatever was seen before. -/
theorem Settles.since {d : Dispatcher} {task : Task} {now : Nat} {l l' : Loop Flight} {t t' : Trial}
    (h : Settles d task now l t l' t') (es : List Event) :
    Settles d task now l (t.since es) l' (t'.since es) := by
  induction h with
  | ended => exact .ended
  | stopped hc => exact .stopped hc
  | waits hc => exact .waits hc
  | begins hc hi => exact .begins hc (by rw [Dispatcher.iterate_since, hi])
  | breaksOff hc hi => exact .breaksOff hc (by rw [Dispatcher.iterate_since, hi])
  | iterates hc hi _ ih =>
      refine .iterates hc (by rw [Dispatcher.iterate_since, hi]) ?_
      rwa [Dispatcher.report_since]
  | flies hw => exact .flies hw
  | goesOn hw hr => exact .goesOn hw (by rw [Dispatcher.resume_since, hr])
  | crashes hw hr => exact .crashes hw (by rw [Dispatcher.resume_since, hr])
  | lands hw hr _ ih =>
      refine .lands hw (by rw [Dispatcher.resume_since, hr]) ?_
      rwa [Dispatcher.report_since]

namespace Dispatcher

theorem settleLoop_since (d : Dispatcher) (task : Task) (now : Nat) (l : Loop Flight) (es : List Event) (t : Trial) :
    d.settleLoop task now l (t.since es) =
      ((d.settleLoop task now l t).1, (d.settleLoop task now l t).2.since es) :=
  ((settles d task now l t).since es).eq

theorem startLoops_since (d : Dispatcher) (now : Nat) (es : List Event) (t : Trial) :
    d.startLoops now (t.since es) = ((d.startLoops now t).1, (d.startLoops now t).2.since es) := by
  unfold startLoops startLoop
  simp only [Trial.log_since, settleLoop_since]
  rfl

end Dispatcher

end Outbox
