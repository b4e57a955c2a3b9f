import Mathlib.Data.Prod.Basic
import Outbox.Dispatcher
import Outbox.Proofs.Fleet.Copies

/-!
# The deeds of a pass

What an observer sees of a pass that a dispatcher runs: its calls and its sends, from the claim to the
release, while the answers of the broker may come later.
-/

namespace Outbox

/-! ## Deeds -/

/-- The task whose loop makes such calls. -/
def Call.task {a : Answer} : Call a → Task
  | .fetch _ | .claim .. | .save _ | .release _ => .processor
  | .unlockBefore _ => .unlocker
  | .removeBefore _ | .removeFinishedBefore _ => .cleaner

namespace Event

/-- The task in which the owner of that name does this: calls and sends are its deeds. -/
def task? (name : String) : Event → Option Task
  | call owner c _ => if owner = name then some c.task else none
  | send owner _ => if owner = name then some .processor else none
  | add .. | effect .. | log _ => none

/-- The records that the owner of that name has fetched there. -/
def fetched (name : String) : Event → List Record
  | @call owner _ (.fetch _) (.ok rs) => if owner = name then rs else []
  | _ => []

/-- Whether the owner of that name could not release its locks there. -/
def isFailedRelease (name : String) : Event → Bool
  | @call owner _ (.release _) (.error _) => owner = name
  | _ => false

/-- No attempt counter of what was fetched there is full. -/
def Roomy (name : String) (e : Event) : Prop := ∀ r ∈ e.fetched name, r.attempts < Record.maxAttempts

end Event

namespace Trial

/-- The deeds of a task, the earliest first. -/
def deeds (name : String) (task : Task) (t : Trial) : List Event :=
  (t.seen.filter (·.task? name = some task)).reverse

/-- Between these two moments the owner of that name did `es`. -/
structure Did (name : String) (es : List Event) (t t' : Trial) : Prop where
  deeds : ∀ task, t'.deeds name task = t.deeds name task ++ es.filter (·.task? name = some task)
  now : t'.now = t.now
  seen : t.seen ⊆ t'.seen

namespace Did

variable {name : String} {es es' : List Event} {t t' t'' : Trial}

theorem refl (t : Trial) : Did name [] t t := ⟨fun _ => (List.append_nil _).symm, rfl, fun _ h => h⟩

theorem trans (h : Did name es t t') (h' : Did name es' t' t'') : Did name (es ++ es') t t'' where
  deeds task := by rw [h'.deeds, h.deeds, List.filter_append, List.append_assoc]
  now := h'.now.trans h.now
  seen := fun _ he => h'.seen (h.seen he)

theorem trans_nil (h : Did name es t t') (h' : Did name [] t' t'') : Did name es t t'' :=
  List.append_nil es ▸ h.trans h'

theorem see (t u : Trial) (hs : u.seen = t.seen) (hn : u.now = t.now) (e : Event) :
    Did name [e] t (u.see e) where
  deeds task := by
    unfold Trial.deeds Trial.see
    by_cases he : e.task? name = some task <;> simp [he, hs]
  now := hn
  seen _ he := List.mem_cons_of_mem _ (hs ▸ he)

theorem see_other (t u : Trial) (hs : u.seen = t.seen) (hn : u.now = t.now) {e : Event}
    (he : e.task? name = none) : Did name [] t (u.see e) where
  deeds task := by simp [Trial.deeds, Trial.see, he, hs]
  now := hn
  seen _ he := List.mem_cons_of_mem _ (hs ▸ he)

theorem log (t : Trial) (e : LogEntry) : Did name [] t (t.log e) := see_other t t rfl rfl rfl

theorem effect (t : Trial) (a : Access) : Did name [] t (t.effect a) :=
  see_other t (t.access a).2 rfl rfl rfl

theorem foldl_log (t : Trial) (entries : List LogEntry) : Did name [] t (entries.foldl Trial.log t) := by
  induction entries generalizing t with
  | nil => exact refl t
  | cons e es ih => exact (log t e).trans (ih _)

theorem foldl_effect (t : Trial) (effects : List Access) : Did name [] t (effects.foldl Trial.effect t) := by
  induction effects generalizing t with
  | nil => exact refl t
  | cons a as ih => exact (effect t a).trans (ih _)

theorem call (t : Trial) {a : Answer} (c : Call a) :
    Did name [.call name c (t.call name c).1] t (t.call name c).2 := by
  unfold Trial.call
  split
  · rename_i e faults _
    exact see t { t with faults } rfl rfl _
  · rename_i faults _
    exact see t { t with store := (t.store.perform c).2, faults } rfl rfl _

theorem await (t : Trial) (awaited : Option Outcome) : Did name [] t { t with awaited } where
  deeds _ := (List.append_nil _).symm
  now := rfl
  seen _ he := he

theorem handOver (t : Trial) (m : Message) : Did name [.send name m] t (t.handOver name m).2 :=
  (see t { t with broker := (t.broker.take m).2.2 } rfl rfl _).trans_nil (foldl_log ..)

theorem mem_seen (h : Did name es t t') {e : Event} {task : Task} (he : e ∈ es)
    (htask : e.task? name = some task) : e ∈ t'.seen := by
  have hm : e ∈ t'.deeds name task := by
    rw [h.deeds]
    exact List.mem_append_right _ (List.mem_filter.2 ⟨he, decide_eq_true htask⟩)
  exact (List.mem_filter.1 (List.mem_reverse.1 hm)).1

end Did

variable {name : String} {t : Trial} {entries : List LogEntry}

@[simp] theorem awaited_foldl_log : (entries.foldl log t).awaited = t.awaited := by
  induction entries generalizing t with
  | nil => rfl
  | cons e es ih => exact ih

@[simp] theorem store_foldl_log : (entries.foldl log t).store = t.store := by
  induction entries generalizing t with
  | nil => rfl
  | cons e es ih => exact ih

@[simp] theorem awaited_foldl_effect {effects : List Access} :
    (effects.foldl effect t).awaited = t.awaited := by
  induction effects generalizing t with
  | nil => rfl
  | cons a as ih => exact ih

@[simp] theorem awaited_call {a : Answer} {c : Call a} : (t.call name c).2.awaited = t.awaited := by
  unfold call
  split <;> rfl

theorem sendOrWait_cases (t : Trial) (m : Message) :
    (0 < (t.handOver name m).1.delayMillis ∧ t.sendOrWait name m =
      (none, { (t.handOver name m).2 with awaited := some (t.handOver name m).1 })) ∨
    t.sendOrWait name m = (some (t.handOver name m).1.answer,
      (t.handOver name m).1.effects.foldl effect (t.handOver name m).2) := by
  by_cases hd : 0 < (t.handOver name m).1.delayMillis
  · exact Or.inl ⟨hd, if_pos hd⟩
  · exact Or.inr (if_neg hd)

@[simp] theorem awaited_handOver {m : Message} : (t.handOver name m).2.awaited = t.awaited :=
  awaited_foldl_log

end Trial

/-! ## Courses -/

namespace Pass

/-- What the owner of that name has done when a pass of its has come to this state. -/
inductive Course (s : Settings) (name : String) : List Event → Pass → Prop where
  | opening : Course s name [] .opening
  | now {es p resume} (h : Course s name es p) (hp : p.next s = some (.now resume)) (t : Instant) :
      Course s name es (resume t)
  | call {es p a} {c : Call a} {resume} (h : Course s name es p) (hp : p.next s = some (.call c resume))
      (answer : Except OutboxError a.Val) :
      Course s name (es ++ [.call name c answer]) (resume answer).1
  | send {es p m resume} (h : Course s name es p) (hp : p.next s = some (.send m resume))
      (answer : Except BrokerError Unit) : Course s name (es ++ [.send name m]) (resume answer)

/-- The pass waits for the answer to what it has sent last. -/
def Flying (s : Settings) (name : String) (es : List Event) (p : Pass) : Prop :=
  ∃ before m resume, es = before ++ [.send name m] ∧ Course s name before p ∧ p.next s = some (.send m resume)

variable {s : Settings} {name : String} {es : List Event} {p : Pass}

theorem task_of_next {a : Answer} {c : Call a} {resume : Except OutboxError a.Val → Pass × List LogEntry}
    (hp : p.next s = some (.call c resume)) : c.task = .processor := by
  cases p with
  | claiming | fetching | saving | releasing => cases hp; rfl
  | _ => cases hp

theorem ne_finished_of_send {m : Message} {resume : Except BrokerError Unit → Pass}
    (hp : p.next s = some (.send m resume)) (answer : Except BrokerError Unit)
    (result : Except OutboxError Report) : resume answer ≠ .finished result := by
  cases p with
  | sending report r rest =>
      cases hp
      unfold sent
      split
      · exact (nomatch ·)
      · split <;> exact (nomatch ·)
  | _ => cases hp

theorem receive_of_next {m : Message} {resume : Except BrokerError Unit → Pass}
    (hp : p.next s = some (.send m resume)) (answer : Except BrokerError Unit) :
    p.receive s answer = resume answer := by
  cases p with
  | sending => cases hp; rfl
  | _ => cases hp

namespace Course

theorem task (h : Course s name es p) : ∀ e ∈ es, e.task? name = some .processor := by
  induction h with
  | opening => exact fun _ h => nomatch h
  | now _ _ _ ih => exact ih
  | call _ hp _ ih =>
      refine List.forall_mem_append.2 ⟨ih, List.forall_mem_singleton.2 ?_⟩
      rw [Event.task?, if_pos rfl, task_of_next hp]
  | send _ _ _ ih => exact List.forall_mem_append.2 ⟨ih, List.forall_mem_singleton.2 (if_pos rfl)⟩

theorem receive (h : Flying s name es p) (answer : Except BrokerError Unit) :
    Course s name es (p.receive s answer) := by
  obtain ⟨before, m, resume, rfl, hc, hp⟩ := h
  rw [receive_of_next hp]
  exact hc.send hp answer

end Course

/-! ## Room in the counters -/

/-- The pass is not broken off, and what it has still to try has room for one more attempt. -/
structure Live (p : Pass) : Prop where
  ne_halted : p ≠ .halted
  room : ∀ r ∈ p.untried, r.attempts < Record.maxAttempts

namespace Live

theorem of_untried_nil (h : p ≠ .halted) (hu : p.untried = []) : p.Live := ⟨h, by simp [hu]⟩

theorem releasing (result : Except OutboxError Report) : (Pass.releasing result).Live :=
  of_untried_nil (by simp) rfl

theorem proceed (report : Report) {rest : List Record} (h : ∀ r ∈ rest, r.attempts < Record.maxAttempts) :
    (Pass.proceed report rest).Live :=
  ⟨by cases rest <;> simp [Pass.proceed], by rwa [untried_proceed]⟩

theorem now (h : p.Live) {resume : Instant → Pass} (hp : p.next s = some (.now resume)) (t : Instant) :
    (resume t).Live := by
  cases p with
  | opening => cases hp; exact of_untried_nil (by simp) rfl
  | starting report r rest =>
      cases hp
      unfold started
      cases hs : r.startAttempt t with
      | none =>
          have hlt := h.room r List.mem_cons_self
          exact absurd (Record.startAttempt_eq_none_iff.1 hs) (Nat.not_le_of_lt hlt)
      | some r' => exact ⟨by simp, fun v hv => h.room v (List.mem_cons_of_mem _ hv)⟩
  | accepted report r rest =>
      cases hp
      unfold delivered
      cases r.markDelivered t with
      | error e => exact releasing _
      | ok r' => exact ⟨by simp, h.room⟩
  | _ => cases hp

theorem call (h : p.Live) {a : Answer} {c : Call a} {resume : Except OutboxError a.Val → Pass × List LogEntry}
    (hp : p.next s = some (.call c resume)) {answer : Except OutboxError a.Val}
    (hr : (Event.call name c answer).Roomy name) : (resume answer).1.Live := by
  cases p with
  | claiming now => cases hp; cases answer <;> exact of_untried_nil (by simp [claimed]) rfl
  | fetching n =>
      cases hp
      cases answer with
      | error e => exact releasing _
      | ok rs =>
          refine proceed _ fun r hm => hr r ?_
          simpa [Event.fetched] using hm
  | saving report r failure rest =>
      cases hp
      cases answer with
      | error e => exact releasing _
      | ok =>
          cases failure with
          | none => exact proceed _ h.room
          | some e => exact releasing _
  | releasing result => cases hp; cases answer <;> exact of_untried_nil (by simp [released]) rfl
  | _ => cases hp

theorem send (h : p.Live) {m : Message} {resume : Except BrokerError Unit → Pass}
    (hp : p.next s = some (.send m resume)) (answer : Except BrokerError Unit) : (resume answer).Live := by
  cases p with
  | sending report r rest =>
      cases hp
      cases answer with
      | ok => exact ⟨by simp [sent], h.room⟩
      | error e =>
          simp only [sent]
          cases r.markFailed e.message s.policy with
          | error x => exact releasing _
          | ok r' => exact ⟨by simp, h.room⟩
  | _ => cases hp

end Live

/-- A pass that fetches nothing with a full counter is not broken off. -/
theorem Course.live (h : Course s name es p) (hr : ∀ e ∈ es, e.Roomy name) : p.Live := by
  induction h with
  | opening => exact .of_untried_nil (by simp) rfl
  | now _ hp t ih => exact (ih hr).now hp t
  | call _ hp answer ih =>
      obtain ⟨hold, hnew⟩ := List.forall_mem_append.1 hr
      exact (ih hold).call hp (List.forall_mem_singleton.1 hnew)
  | send _ hp answer ih => exact (ih (List.forall_mem_append.1 hr).1).send hp answer

/-! ## Advancing -/

/-- Why a pass gets no further. -/
inductive Stops {ω : Type} (h : Host ω) (s : Settings) (p : Pass) (w : ω) : ω → Prop where
  | ended (hp : p.next s = none) : Stops h s p w w
  | timeless {resume} (hp : p.next s = some (.now resume)) (ht : h.now w = none) : Stops h s p w w
  | unanswered {m resume w'} (hp : p.next s = some (.send m resume)) (ha : h.send m w = (none, w')) :
      Stops h s p w w'

/-- What each request keeps holds where the pass gets no further. -/
theorem advance_induction {ω : Type} {h : Host ω} {P : Pass → ω → Prop}
    (now : ∀ {p w resume t}, p.next s = some (.now resume) → h.now w = some t → P p w → P (resume t) w)
    (call : ∀ {p w a} {c : Call a} {resume}, p.next s = some (.call c resume) → P p w →
      P (resume (h.call c w).1).1 (h.logAll (h.call c w).2 (resume (h.call c w).1).2))
    (send : ∀ {p w m resume a w'}, p.next s = some (.send m resume) → h.send m w = (some a, w') → P p w →
      P (resume a) w')
    {w : ω} (hP : P p w) :
    ∃ w₀, P (advance h s p w).1 w₀ ∧ Stops h s (advance h s p w).1 w₀ (advance h s p w).2 := by
  fun_induction advance h s p w with
  | case1 p w hp => exact ⟨w, hP, .ended hp⟩
  | case2 p w resume hp ht => exact ⟨w, hP, .timeless hp ht⟩
  | case3 p w resume hp t ht _ ih => exact ih (now hp ht hP)
  | case4 p w a c resume hp answer w' he _ ih =>
      refine ih ?_
      have hnext := call hp hP
      rwa [he] at hnext
  | case5 p w m resume hp w' ha => exact ⟨w, hP, .unanswered hp ha⟩
  | case6 p w m resume hp a w' ha _ ih => exact ih (send hp ha hP)

/-- A pass comes before the states from which it goes on. -/
def NotAfter (p q : Pass) : Prop := p = q ∨ p.Before q

theorem Before.trans {p q r : Pass} (h : p.Before q) (h' : q.Before r) : p.Before r :=
  Prod.Lex.trans h h'

theorem Before.trans_notAfter {p q r : Pass} (h : p.Before q) (h' : q.NotAfter r) : p.NotAfter r := by
  rcases h' with rfl | h'
  · exact Or.inr h
  · exact Or.inr (h.trans h')

end Pass

namespace Pass

variable {s : Settings} {p q : Pass} {m m' : Message} {resume resume' : Except BrokerError Unit → Pass}

theorem waiting_pos (hp : p.next s = some (.send m resume)) : 0 < p.waiting := by
  cases p with
  | sending => exact Nat.succ_pos _
  | _ => cases hp

/-- Between two sends of a pass a record is done with. -/
theorem waiting_lt (hp : p.next s = some (.send m resume)) (hq : q.next s = some (.send m' resume'))
    (h : q.Before p) : q.waiting < p.waiting := by
  cases p with
  | sending report r rest =>
      cases q with
      | sending report' r' rest' =>
          have hlt : 4 * rest'.length + 2 < 4 * rest.length + 2 := by
            simpa [Before, rank, Prod.lex_def] using h
          show rest'.length + 1 < rest.length + 1
          omega
      | _ => cases hq
  | _ => cases hp

/-- An answer takes a pass past its send, and going on from there never takes it back. -/
theorem waiting_lt_of_notAfter (hp : p.next s = some (.send m resume))
    (hq : q.next s = some (.send m' resume')) {answer : Except BrokerError Unit}
    (hn : q.NotAfter (p.receive s answer)) : q.waiting < p.waiting := by
  rw [receive_of_next hp] at hn
  refine Pass.waiting_lt hp hq ?_
  rcases hn with rfl | hn
  · exact send_before hp _
  · exact hn.trans (send_before hp _)

theorem Flying.waiting_lt {name : String} {es es' : List Event} (h : Flying s name es p)
    (h' : Flying s name es' q) {answer : Except BrokerError Unit} (hn : q.NotAfter (p.receive s answer)) :
    q.waiting < p.waiting := by
  obtain ⟨before, m, resume, -, -, hp⟩ := h
  obtain ⟨before', m', resume', -, -, hq⟩ := h'
  exact waiting_lt_of_notAfter hp hq hn

theorem Flying.waiting_pos {name : String} {es : List Event} (h : Flying s name es p) : 0 < p.waiting := by
  obtain ⟨before, m, resume, -, -, hp⟩ := h
  exact Pass.waiting_pos hp

end Pass

namespace Trial

theorem seen_call (name : String) {a : Answer} (c : Call a) (t : Trial) :
    t.seen ⊆ (t.call name c).2.seen := by
  have hcall : Did name _ t (t.call name c).2 := .call t c
  exact hcall.seen

theorem seen_sendOrWait (name : String) (m : Message) (t : Trial) :
    t.seen ⊆ (t.sendOrWait name m).2.seen := by
  have hover : Did name _ t (t.handOver name m).2 := .handOver t m
  rcases sendOrWait_cases t m with ⟨-, he⟩ | he
  · rw [he]
    exact hover.seen
  · rw [he]
    exact (hover.trans (.foldl_effect _ _)).seen

/-- A pass only adds to what was seen. -/
theorem seen_advance (name : String) (s : Pass.Settings) (p : Pass) (t : Trial) :
    t.seen ⊆ (p.advance (patientHost name) s t).2.seen := by
  obtain ⟨u, hu, hstop⟩ := Pass.advance_induction (h := patientHost name) (s := s) (p := p)
    (P := fun _ u => t.seen ⊆ u.seen) (fun _ _ h => h)
    (fun {p u a c resume} _ h => by
      have hlog : Did name [] _ _ := .foldl_log (u.call name c).2 (resume (u.call name c).1).2
      exact List.Subset.trans h (List.Subset.trans (seen_call name c u) hlog.seen))
    (fun {p u m resume a u'} _ ha h => by
      have hs := List.Subset.trans h (seen_sendOrWait name m u)
      rwa [show u.sendOrWait name m = (some a, u') from ha] at hs)
    (w := t) (List.Subset.refl _)
  cases hstop with
  | ended | timeless => exact hu
  | @unanswered m resume u' _ ha =>
      have hs := List.Subset.trans hu (seen_sendOrWait name m u)
      rwa [show u.sendOrWait name m = (none, _) from ha] at hs

end Trial

/-! ## A pass among others -/

/-- Nothing is locked by this machine. -/
def Store.Without (machine : MachineId) (s : Store) : Prop := ∀ r ∈ s.records, r.owner? ≠ some machine

namespace Store.Without

variable {machine : MachineId} {s : Store}

theorem release : (s.unlock (OwnedBy machine)).Without machine := by
  intro v hv
  obtain ⟨r, hr, rfl⟩ := List.mem_map.1 hv
  split
  · exact (nomatch ·)
  · rename_i ho
    simpa [OwnedBy] using ho

theorem unlock (h : s.Without machine) (p : Record → Bool) : (s.unlock p).Without machine := by
  intro v hv
  obtain ⟨r, hr, rfl⟩ := List.mem_map.1 hv
  split
  · exact (nomatch ·)
  · exact h r hr

theorem remove (h : s.Without machine) (p : Record → Bool) : (s.remove p).Without machine :=
  fun v hv => h v (List.mem_filter.1 hv).1

end Store.Without

namespace Trial

/-- There is no lock of this machine, unless it failed to release its locks. -/
def Freed (name : String) (machine : MachineId) (t : Trial) : Prop :=
  (∃ e ∈ t.seen, e.isFailedRelease name = true) ∨ t.store.Without machine

variable {name : String} {machine : MachineId} {t t' : Trial}

theorem Freed.mono (h : t.Freed name machine) (hseen : t.seen ⊆ t'.seen)
    (hstore : t.store.Without machine → t'.store.Without machine) : t'.Freed name machine :=
  h.imp (fun ⟨e, he, hf⟩ => ⟨e, hseen he, hf⟩) hstore

theorem Freed.foldl_log (h : t.Freed name machine) (entries : List LogEntry) :
    (entries.foldl log t).Freed name machine := by
  have hdid : Did name [] t (entries.foldl log t) := .foldl_log t entries
  exact h.mono hdid.seen fun hs => by rwa [store_foldl_log]

theorem freed_release (t : Trial) (machine : MachineId) :
    (t.call name (.release machine)).2.Freed name machine := by
  unfold call
  split
  · exact Or.inl ⟨_, List.mem_cons_self, decide_eq_true rfl⟩
  · exact Or.inr .release

end Trial

/-- A pass that has gone from the state `p₀` and the moment `t₀` to the state `p` and the moment `t`. -/
structure Pass.Underway (s : Settings) (name : String) (old : List Event) (p₀ : Pass) (t₀ : Trial)
    (es : List Event) (p : Pass) (t : Trial) : Prop where
  course : Course s name (old ++ es) p
  did : Trial.Did name es t₀ t
  awaited : t.awaited = none
  notAfter : p.NotAfter p₀
  released : ∀ {result}, p = .finished result → es ≠ [] ∧ t.Freed name s.machine

namespace Pass.Underway

variable {s : Settings} {name : String} {old es : List Event} {p₀ p : Pass} {t₀ t : Trial}

theorem now (h : Underway s name old p₀ t₀ es p t) {resume : Instant → Pass}
    (hp : p.next s = some (.now resume)) (now : Instant) : Underway s name old p₀ t₀ es (resume now) t where
  course := h.course.now hp now
  did := h.did
  awaited := h.awaited
  notAfter := (now_before hp now).trans_notAfter h.notAfter
  released {result} he := by
    cases p with
    | opening => cases hp; cases he
    | starting report r rest =>
        cases hp
        unfold started at he
        split at he <;> cases he
    | accepted report r rest =>
        cases hp
        unfold delivered at he
        split at he <;> cases he
    | _ => cases hp

theorem call (h : Underway s name old p₀ t₀ es p t) {a : Answer} {c : Call a}
    {resume : Except OutboxError a.Val → Pass × List LogEntry} (hp : p.next s = some (.call c resume)) :
    Underway s name old p₀ t₀ (es ++ [.call name c (t.call name c).1]) (resume (t.call name c).1).1
      ((resume (t.call name c).1).2.foldl Trial.log (t.call name c).2) where
  course := by
    rw [← List.append_assoc]
    exact h.course.call hp _
  did := (h.did.trans (.call t c)).trans_nil (.foldl_log ..)
  awaited := by rw [Trial.awaited_foldl_log, Trial.awaited_call, h.awaited]
  notAfter := (call_before hp _).trans_notAfter h.notAfter
  released {result} he := by
    refine ⟨List.append_ne_nil_of_right_ne_nil _ (List.cons_ne_nil _ _), ?_⟩
    cases p with
    | claiming now =>
        cases hp
        revert he
        cases (t.call name _).1 <;> exact (nomatch ·)
    | fetching n =>
        cases hp
        revert he
        cases (t.call name _).1 with
        | error => exact (nomatch ·)
        | ok rs => cases rs <;> exact (nomatch ·)
    | saving report r failure rest =>
        cases hp
        revert he
        cases (t.call name _).1 with
        | error => exact (nomatch ·)
        | ok =>
            cases failure with
            | some => exact (nomatch ·)
            | none => cases rest <;> exact (nomatch ·)
    | releasing result => cases hp; exact (Trial.freed_release t s.machine).foldl_log _
    | _ => cases hp

/-- An answer that is there at once. -/
theorem send (h : Underway s name old p₀ t₀ es p t) {m : Message}
    {resume : Except BrokerError Unit → Pass} (hp : p.next s = some (.send m resume))
    {answer : Except BrokerError Unit} {t' : Trial} (ha : t.sendOrWait name m = (some answer, t')) :
    Underway s name old p₀ t₀ (es ++ [.send name m]) (resume answer) t' := by
  rcases Trial.sendOrWait_cases t m with ⟨-, hnone⟩ | hsome
  · rw [hnone] at ha
    cases ha
  · rw [hsome] at ha
    cases ha
    constructor
    · rw [← List.append_assoc]
      exact h.course.send hp _
    · exact (h.did.trans (.handOver t m)).trans_nil (.foldl_effect ..)
    · rw [Trial.awaited_foldl_effect, Trial.awaited_handOver, h.awaited]
    · exact (send_before hp _).trans_notAfter h.notAfter
    · exact fun he => absurd he (ne_finished_of_send hp _ _)

theorem advance (h : Underway s name old p₀ t₀ es p t) :
    ∃ es' u, Underway s name old p₀ t₀ es' (p.advance (Trial.patientHost name) s t).1 u ∧
      Stops (Trial.patientHost name) s (p.advance (Trial.patientHost name) s t).1 u
        (p.advance (Trial.patientHost name) s t).2 := by
  obtain ⟨u, ⟨es', hu⟩, hstop⟩ := advance_induction (h := Trial.patientHost name)
    (P := fun p t => ∃ es, Underway s name old p₀ t₀ es p t)
    (fun hp _ ⟨es, h⟩ => ⟨es, h.now hp _⟩) (fun hp ⟨es, h⟩ => ⟨_, h.call hp⟩)
    (fun hp ha ⟨es, h⟩ => ⟨_, h.send hp ha⟩) ⟨es, h⟩
  exact ⟨es', u, hu, hstop⟩

end Pass.Underway

namespace Dispatcher

/-- What comes of going on with a pass that has done `old` up to the moment `t`. -/
inductive Came (d : Dispatcher) (old : List Event) (p₀ : Pass) (t : Trial) : Job.Progress Flight × Trial → Prop where
  | awaits {es p o t'} (did : Trial.Did d.name es t t') (flying : Pass.Flying d.settings d.name (old ++ es) p)
      (delayed : 0 < o.delayMillis) (notAfter : p.NotAfter p₀) : Came d old p₀ t (.awaits ⟨p, o⟩, t')
  | ends {es result ending t'} (did : Trial.Did d.name es t t')
      (course : Pass.Course d.settings d.name (old ++ es) (.finished result)) (any : es ≠ [])
      (freed : t'.Freed d.name d.machine) : Came d old p₀ t (.over (some ending), t')

variable {d : Dispatcher} {old : List Event} {p : Pass} {t : Trial}

/-- The deliveries of a batch are reported. -/
def afterBatch (d : Dispatcher) (t : Trial) : Except OutboxError Report → Trial
  | .error _ => t
  | .ok report =>
    if 0 < report.delivered then t.log (.batchDelivered d.machine report.claimed report.delivered) else t

theorem did_afterBatch (t : Trial) (result : Except OutboxError Report) :
    Trial.Did d.name [] t (d.afterBatch t result) := by
  cases result with
  | error => exact .refl t
  | ok report =>
      unfold afterBatch
      dsimp only
      split
      · exact .log t _
      · exact .refl t

theorem store_afterBatch (t : Trial) (result : Except OutboxError Report) :
    (d.afterBatch t result).store = t.store := by
  cases result with
  | error => rfl
  | ok report =>
      unfold afterBatch
      dsimp only
      split <;> rfl

/-- Where the pass gets no further, it waits, is broken off, or has come to its result. -/
theorem deliver_of_advance {p' : Pass} {t' : Trial}
    (h : p.advance (Trial.patientHost d.name) d.settings { t with awaited := none } = (p', t')) :
    (∀ o, t'.awaited = some o → d.deliver p t = (.awaits ⟨p', o⟩, t')) ∧
      (t'.awaited = none → p'.result? = none → d.deliver p t = (.over none, t')) ∧
      ∀ result, t'.awaited = none → p'.result? = some result →
        ∃ ending, d.deliver p t = (.over (some ending), d.afterBatch t' result) := by
  unfold deliver
  rw [h]
  refine ⟨fun o ho => by simp only [ho], fun hn he => by simp only [hn, he], fun result hn he => ?_⟩
  cases result with
  | error e => exact ⟨.error e, by simp only [hn, he]; rfl⟩
  | ok report => exact ⟨.ok (), by simp only [hn, he]; rfl⟩

theorem seen_deliver (d : Dispatcher) (p : Pass) (t : Trial) : t.seen ⊆ (d.deliver p t).2.seen := by
  have hseen := Trial.seen_advance d.name d.settings p { t with awaited := none }
  cases hadv : p.advance (Trial.patientHost d.name) d.settings { t with awaited := none } with
  | mk p' t' =>
  rw [hadv] at hseen
  obtain ⟨hawaits, hbroken, hover⟩ := deliver_of_advance hadv
  cases ha : t'.awaited with
  | some o => rwa [hawaits o ha]
  | none =>
      cases hr : p'.result? with
      | none => rwa [hbroken ha hr]
      | some result =>
          obtain ⟨ending, he⟩ := hover result ha hr
          rw [he]
          exact List.Subset.trans hseen (did_afterBatch (d := d) t' result).seen

/-- A pass is over, or waits for the broker, if it has the time and nothing that it fetches has a full
counter. -/
theorem deliver_came (hc : Pass.Course d.settings d.name old p) (hp : ∀ result, p ≠ .finished result)
    (hnow : t.now.isSome) (hold : ∀ e ∈ old, e.Roomy d.name)
    (hnew : ∀ e ∈ (d.deliver p t).2.seen, e.Roomy d.name) : Came d old p t (d.deliver p t) := by
  have hstart : Pass.Underway d.settings d.name old p t [] p { t with awaited := none } :=
    ⟨by rwa [List.append_nil], .await t none, rfl, Or.inl rfl, fun he => absurd he (hp _)⟩
  obtain ⟨es, u, hu, hstop⟩ := hstart.advance
  cases hadv : p.advance (Trial.patientHost d.name) d.settings { t with awaited := none } with
  | mk p' t' =>
  rw [hadv] at hu hstop
  obtain ⟨hawaits, hbroken, hover⟩ := deliver_of_advance hadv
  cases hstop with
  | timeless hnext ht =>
      have hnone : t'.now = none := ht
      rw [← hu.did.now, hnone] at hnow
      cases hnow
  | unanswered hnext ha =>
      rename_i m resume
      rcases Trial.sendOrWait_cases u m with ⟨hd, hnone⟩ | hsome
      · cases ha.symm.trans hnone
        rw [hawaits _ rfl]
        refine .awaits ((hu.did.trans (.handOver u m)).trans_nil (.await ..)) ?_ hd hu.notAfter
        exact ⟨_, m, resume, (List.append_assoc ..).symm, hu.course, hnext⟩
      · cases ha.symm.trans hsome
  | ended hnext =>
      cases p' with
      | finished result =>
          obtain ⟨ending, he⟩ := hover result hu.awaited rfl
          obtain ⟨hany, hfreed⟩ := hu.released rfl
          rw [he]
          refine .ends (hu.did.trans_nil (did_afterBatch t' result)) hu.course hany ?_
          exact hfreed.mono (did_afterBatch (d := d) t' result).seen fun hs => by rwa [store_afterBatch]
      | halted =>
          rw [hbroken hu.awaited rfl] at hnew
          have hes : ∀ e ∈ es, e.Roomy d.name := fun e he =>
            hnew e (hu.did.mem_seen he (hu.course.task e (List.mem_append_right _ he)))
          exact absurd rfl (hu.course.live (List.forall_mem_append.2 ⟨hold, hes⟩)).ne_halted
      | _ => cases hnext

end Dispatcher

end Outbox
