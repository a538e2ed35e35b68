/-
The chain of pings.

A ping that waits, or a message that makes one, is a chain.  A message that makes a ping
ends where the ping begins, and a ping that is replied to where its handler posts the
next message; so **a fine step adds no chain** (`chains_step`).

The timeout of a ping runs from its sending on: nothing but the steps of its own task
touches it (`Timed`), so where it runs out, five seconds have passed.

**`keepsAlive_run`**: a run whose steps are fine keeps the connection alive as promised.
-/
import Jingle.Service.PingTask

namespace Jingle.Service

open Base Base.TaskRunner

namespace KeepAlive

variable {k k' : KeepAlive} {t : ℕ}

/-! ### The timeout of a ping -/

/-- A ping that was not sent has no timeout. -/
structure Fresh (a : Task) : Prop where
  timeout_seconds : a.timeout_seconds = 0
  timeout_time : a.timeout_time = 0

/-- A ping that was sent: its timeout is over, or is five seconds after that. -/
structure Counting (s now : ℕ) (a : Task) : Prop where
  le : s ≤ now
  fits : shown s + pingTimeout * 1000 < 2 ^ 32
  timeout_time : a.timeout_time = 0 ∨ a.timeout_time = shown s + pingTimeout * 1000
  state : a.done = true ∨ (a.state ≠ stateInit ∧ a.state ≠ stateStart)

theorem Fresh.holds {a b : Task} (h : Fresh a) (hb : a.Holds b) : Fresh b :=
  ⟨hb.timeout_seconds.trans h.timeout_seconds, hb.timeout_time.trans h.timeout_time⟩

theorem Counting.holds {s now : ℕ} {a b : Task} (h : Counting s now a) (hb : a.Holds b) :
    Counting s now b where
  le := h.le
  fits := h.fits
  timeout_time := hb.timeout_time ▸ h.timeout_time
  state := by
    obtain hdone | hstate := h.state
    · exact .inl (hb.done hdone)
    · obtain hsame | herror := hb.state
      · rw [hsame]
        exact .inr hstate
      · rw [herror]
        exact .inr (by decide)

/-- What a ping is, sent or not. -/
structure Timed (sent : Option ℕ) (now : ℕ) (a : Task) : Prop where
  fresh : sent = none → Fresh a
  counting : ∀ s, sent = some s → Counting s now a

theorem Timed.holds {sent : Option ℕ} {now : ℕ} {a b : Task} (h : Timed sent now a)
    (hb : a.Holds b) : Timed sent now b :=
  ⟨fun hs => (h.fresh hs).holds hb, fun s hs => (h.counting s hs).holds hb⟩

theorem newTimeoutTime_fresh (w : TaskRunner) {a : Task} (h : a.timeout_seconds = 0) :
    w.newTimeoutTime a = 0 := by
  rw [TaskRunner.newTimeoutTime, if_neg fun hc => hc.1 h]

theorem newTimeoutTime_ended (w : TaskRunner) {a : Task}
    (h : a.state = stateDone ∨ a.state = stateError) : w.newTimeoutTime a = 0 := by
  rw [TaskRunner.newTimeoutTime, if_neg fun hc => h.elim hc.2.1.2.1 hc.2.1.2.2]

theorem newTimeoutTime_sent {w : TaskRunner} {now : ℕ} {a : Task}
    (hclock : w.current_time = shown now) (hseconds : a.timeout_seconds = pingTimeout)
    (hfits : shown now + pingTimeout * 1000 < 2 ^ 32) :
    w.newTimeoutTime a = 0 ∨ w.newTimeoutTime a = shown now + pingTimeout * 1000 := by
  rw [TaskRunner.newTimeoutTime]
  by_cases hc : a.timeout_seconds ≠ 0 ∧ (a.state ≠ stateInit ∧ a.state ≠ stateDone ∧
      a.state ≠ stateError) ∧ a.timeout_suspended = false
  · right
    rw [if_pos hc, hclock, hseconds]
    exact if_neg (by omega)
  · exact .inl (if_neg hc)

theorem Counting.elapsed {w : TaskRunner} {s now : ℕ} (h : Counting s now (w.task t))
    (hclock : w.current_time = shown now) (hout : w.timedOut t = true) :
    s + pingTimeout * 1000 ≤ now := by
  rw [TaskRunner.timedOut, decide_eq_true_iff] at hout
  obtain ⟨-, hne, hle⟩ := hout
  have htime := h.timeout_time.resolve_left hne
  rw [htime, hclock] at hle
  have hs := h.le
  have hfits := h.fits
  simp only [shown, pingTimeout] at hle hfits ⊢
  omega

/-! ### The invariant -/

structure Inv (k : KeepAlive) : Prop where
  living : k.runner.Living
  clock : k.runner.current_time = shown k.now
  lt : ∀ t ∈ k.pings, t < k.runner.count
  timed : ∀ t ∈ k.pings, Timed (k.sent t) k.now (k.runner.task t)
  mem : ∀ t s, k.sent t = some s → t ∈ k.pings
  replied : ∀ t, k.sent t = none → k.replied t = none
  timeouts : ∀ t now, (t, now) ∈ k.timeouts → now ≤ k.now ∧ ∃ s, k.sent t = some s ∧
    s + pingTimeout * 1000 ≤ now ∧ ∀ r, k.replied t = some r → s + pingTimeout * 1000 ≤ r

/-! ### Chains -/

theorem awaits_of {u : ℕ} (hdone : (k.runner.task u).done = true → (k'.runner.task u).done = true)
    (hreplied : k'.replied u = none → k.replied u = none) (h : k'.awaits u = true) :
    k.awaits u = true := by
  rw [awaits, decide_eq_true_iff] at h ⊢
  refine ⟨?_, hreplied h.2⟩
  rw [← Bool.not_eq_true]
  intro hd
  exact absurd ((hdone hd).symm.trans h.1) Bool.false_ne_true.symm

theorem chains_le (hpings : k'.pings = k.pings)
    (hawaits : ∀ u ∈ k.pings, k'.awaits u = true → k.awaits u = true)
    (hqueue : k'.queue.countP (fun m => m.2.isPing) ≤ k.queue.countP fun m => m.2.isPing) :
    k'.chains ≤ k.chains := by
  rw [chains, chains, hpings]
  exact Nat.add_le_add (List.countP_mono_left hawaits) hqueue

theorem countP_erase_add {m : ℕ × PingMessage} {queue : List (ℕ × PingMessage)} (h : m ∈ queue) :
    queue.countP (fun m => m.2.isPing) =
      (queue.erase m).countP (fun m => m.2.isPing) + if m.2.isPing then 1 else 0 := by
  rw [(List.perm_cons_erase h).countP_eq, List.countP_cons]

theorem holds_newPing {w : TaskRunner} {u : ℕ} (h : u < w.count) (client : ℕ) :
    w.Holds u ((w.newTask (some client)).start w.count) :=
  (TaskRunner.holds_newTask h _).trans (TaskRunner.holds_start _ _)

theorem chains_newPing (hlt : ∀ u ∈ k.pings, u < k.runner.count) :
    k.newPing.chains ≤ k.chains + 1 := by
  rw [newPing]
  split_ifs
  · have hold : k.pings.countP (awaits { k with
        runner := (k.runner.newTask (some k.client)).start k.runner.count
        pings := k.pings ++ [k.runner.count] }) ≤ k.pings.countP k.awaits :=
      List.countP_mono_left fun u hu => awaits_of (holds_newPing (hlt u hu) _).task.done id
    have hone := List.countP_le_length (p := awaits { k with
        runner := (k.runner.newTask (some k.client)).start k.runner.count
        pings := k.pings ++ [k.runner.count] }) (l := [k.runner.count])
    rw [List.length_singleton] at hone
    rw [chains, chains, List.countP_append]
    dsimp only
    omega
  · exact Nat.le_succ _

theorem chains_dispatch (hlt : ∀ u ∈ k.pings, u < k.runner.count) (m : ℕ × PingMessage) :
    (k.dispatch m).chains ≤ k.chains := by
  rw [dispatch]
  split_ifs with hdue
  · set k₀ : KeepAlive := { k with queue := k.queue.erase m } with hk₀
    have herase : k.chains = k₀.chains + if m.2.isPing then 1 else 0 := by
      rw [chains, chains, countP_erase_add hdue.2.1, Nat.add_assoc]
      rfl
    obtain ⟨due, message⟩ := m
    cases message with
    | ready => exact (chains_newPing (k := k₀) hlt).trans herase.ge
    | ping => exact (chains_newPing (k := k₀) hlt).trans herase.ge
    | wake u =>
      have hwake : ({ k₀ with runner := k₀.runner.call u TaskRunner.wake } : KeepAlive).chains ≤
          k₀.chains :=
        chains_le rfl (fun v _ => awaits_of
          (TaskRunner.holds_call (TaskRunner.holds_wake _ u)).task.done id) le_rfl
      exact hwake.trans herase.ge
  · exact le_rfl

theorem chains_handleStanza (hl : k.listens t = true) (hfirst : k.replied t = none) :
    (k.handleStanza t).chains ≤ k.chains := by
  rw [listens, decide_eq_true_iff] at hl
  obtain ⟨-, hmem, -, hdone, -⟩ := hl
  obtain ⟨before, behind, hpings⟩ := List.append_of_mem hmem
  have hwaited : k.awaits t = true := decide_eq_true ⟨hdone, hfirst⟩
  have hwaits : (k.handleStanza t).awaits t = false := by
    refine decide_eq_false fun h => ?_
    have hset : (k.handleStanza t).replied t = some ((k.replied t).getD k.now) :=
      Function.update_self ..
    rw [hset] at h
    exact Option.some_ne_none _ h.2
  have hother : ∀ u, (k.handleStanza t).awaits u = true → k.awaits u = true := by
    intro u
    refine awaits_of (TaskRunner.holds_wake k.runner t).task.done fun h => ?_
    by_cases hu : u = t
    · rw [hu]
      exact hfirst
    · have hsame : (k.handleStanza t).replied u = k.replied u := Function.update_of_ne hu ..
      rw [← hsame]
      exact h
  have hbefore := List.countP_mono_left (l := before) fun u _ => hother u
  have hbehind := List.countP_mono_left (l := behind) fun u _ => hother u
  have hsame : (k.handleStanza t).pings = k.pings := rfl
  have hqueue : (k.handleStanza t).queue.countP (fun m => m.2.isPing) =
      k.queue.countP (fun m => m.2.isPing) + 1 := by
    have hpost : (k.handleStanza t).queue = k.queue ++ [(k.now + pingTimeout * 1000, .ping)] := rfl
    rw [hpost, List.countP_append]
    rfl
  rw [chains, chains, hsame, hqueue, hpings, List.countP_append, List.countP_append,
    List.countP_cons, List.countP_cons, hwaits, hwaited, if_neg Bool.false_ne_true, if_pos rfl]
  omega

/-! ### The `Process` of a ping -/

theorem processPing_runner (k : KeepAlive) (t : ℕ) (sends : Bool) :
    ∃ (w : TaskRunner) (new_state : ℤ), w.life = k.runner.life ∧
      (k.processPing t sends).runner = w.processed new_state := by
  rw [processPing]
  split_ifs
  · exact ⟨_, _, TaskRunner.life_clearTimeout _ t, rfl⟩
  · exact ⟨_, _, rfl, rfl⟩
  · rw [processStart]
    split_ifs
    · exact ⟨_, _, TaskRunner.life_setTimeoutSeconds _ t _, rfl⟩
    · exact ⟨_, _, rfl, rfl⟩
  · rw [processResponse]
    split_ifs
    · exact ⟨_, _, rfl, rfl⟩
    · exact ⟨_, _, rfl, rfl⟩
  · exact ⟨_, _, rfl, rfl⟩
  · exact ⟨_, _, rfl, rfl⟩

theorem processPing_rest (k : KeepAlive) (t : ℕ) (sends : Bool) :
    (k.processPing t sends).pings = k.pings ∧ (k.processPing t sends).replied = k.replied ∧
      (k.processPing t sends).now = k.now ∧
      (k.processPing t sends).queue.countP (fun m => m.2.isPing) =
        k.queue.countP fun m => m.2.isPing := by
  rw [processPing]
  split_ifs
  · exact ⟨rfl, rfl, rfl, rfl⟩
  · exact ⟨rfl, rfl, rfl, rfl⟩
  · rw [processStart]
    split_ifs
    · exact ⟨rfl, rfl, rfl, rfl⟩
    · exact ⟨rfl, rfl, rfl, rfl⟩
  · rw [processResponse]
    split_ifs
    · exact ⟨rfl, rfl, rfl, rfl⟩
    · refine ⟨rfl, rfl, rfl, ?_⟩
      rw [post, List.countP_append]
      rfl
  · exact ⟨rfl, rfl, rfl, rfl⟩
  · exact ⟨rfl, rfl, rfl, rfl⟩

theorem done_processed {w : TaskRunner} (h : w.processing = some t) (new_state : ℤ) (u : ℕ)
    (hd : (w.task u).done = true) : ((w.processed new_state).task u).done = true := by
  by_cases hu : u = t
  · subst hu
    rw [TaskRunner.task_processed h]
    obtain ⟨hholds, -⟩ | ⟨-, hholds⟩ := TaskRunner.endStep_self w u new_state
    · exact hholds.done hd
    · exact hholds.done hd
  · exact (TaskRunner.holds_processed h hu new_state).task.done hd

theorem chains_processPing (h : k.runner.processing = some t) (sends : Bool) :
    (k.processPing t sends).chains ≤ k.chains := by
  obtain ⟨hpings, hreplied, -, hqueue⟩ := processPing_rest k t sends
  obtain ⟨w, new_state, hlife, hrunner⟩ := processPing_runner k t sends
  refine chains_le hpings (fun u _ => awaits_of (fun hd => ?_) fun hr => ?_) hqueue.le
  · rw [hrunner]
    exact done_processed ((TaskRunner.processing_of_life hlife).trans h) new_state u
      ((TaskRunner.Keeps.of_life hlife).done u hd)
  · rw [← hreplied]
    exact hr

/-! ### The end of a ping's step -/

theorem Fresh.processed {w : TaskRunner} (h : Fresh (w.task t)) (hp : w.processing = some t)
    (new_state : ℤ) : Fresh ((w.processed new_state).task t) := by
  rw [TaskRunner.task_processed hp]
  obtain ⟨hholds, -⟩ | ⟨-, hholds⟩ := TaskRunner.endStep_self w t new_state
  · exact h.holds hholds
  · have htime := newTimeoutTime_fresh w (a := { w.task t with state := new_state })
      h.timeout_seconds
    refine Fresh.holds ?_ hholds
    exact ⟨h.timeout_seconds, htime⟩

theorem Counting.processed {w : TaskRunner} {s now : ℕ} (h : Counting s now (w.task t))
    (hp : w.processing = some t) {new_state : ℤ}
    (hnew : new_state = stateBlocked ∨ new_state = stateDone ∨ new_state = stateError) :
    Counting s now ((w.processed new_state).task t) := by
  rw [TaskRunner.task_processed hp]
  obtain ⟨hholds, -⟩ | ⟨hne, hholds⟩ := TaskRunner.endStep_self w t new_state
  · exact h.holds hholds
  · have hend := hnew.resolve_left hne
    have htime := newTimeoutTime_ended w (a := { w.task t with state := new_state }) hend
    have hstate : new_state ≠ stateInit ∧ new_state ≠ stateStart := by
      obtain rfl | rfl := hend
      · decide
      · decide
    refine Counting.holds ?_ hholds
    exact ⟨h.le, h.fits, .inl htime, .inr hstate⟩

theorem counting_sent {w : TaskRunner} {now : ℕ} (hclock : w.current_time = shown now)
    (hfits : shown now + pingTimeout * 1000 < 2 ^ 32) (hp : w.processing = some t) :
    Counting now now
      (((w.setTimeoutSeconds t pingTimeout).processed stateResponse).task t) := by
  have hset := TaskRunner.setTimeoutSeconds_self w t pingTimeout
  have hlife := TaskRunner.life_setTimeoutSeconds w t pingTimeout
  have hgoes := TaskRunner.current_time_setTimeoutSeconds w t pingTimeout
  rw [TaskRunner.task_processed ((TaskRunner.processing_of_life hlife).trans hp)]
  obtain ⟨hholds, hend⟩ | ⟨-, hholds⟩ :=
    TaskRunner.endStep_self (w.setTimeoutSeconds t pingTimeout) t stateResponse
  · -- the task was aborted, and is done
    have hdone := hend.resolve_left (by decide)
    have htime := newTimeoutTime_sent (a := { w.task t with timeout_seconds := pingTimeout })
      hclock rfl hfits
    refine ⟨le_rfl, hfits, ?_, .inl hdone⟩
    rw [hholds.timeout_time, hset.timeout_time]
    exact htime
  · have htime := newTimeoutTime_sent (w := w.setTimeoutSeconds t pingTimeout)
      (a := { (w.setTimeoutSeconds t pingTimeout).task t with state := stateResponse })
      (hgoes.trans hclock) hset.timeout_seconds hfits
    have hstate : stateResponse ≠ stateInit ∧ stateResponse ≠ stateStart := by
      decide
    refine Counting.holds ?_ hholds
    exact ⟨le_rfl, hfits, htime, .inr hstate⟩

theorem not_about {e : TaskEvent} (he : k.mayRun e = true) (ht : t ∈ k.pings) : ¬k.runner.About t e := by
  cases e with
  | setTimeoutSeconds u seconds => exact fun h => of_decide_eq_true he (h ▸ ht)
  | resetTimeout u => exact fun h => of_decide_eq_true he (h ▸ ht)
  | clearTimeout u => exact fun h => of_decide_eq_true he (h ▸ ht)
  | suspendTimeout u => exact fun h => of_decide_eq_true he (h ▸ ht)
  | resumeTimeout u => exact fun h => of_decide_eq_true he (h ▸ ht)
  | processed new_state => exact fun h => of_decide_eq_true he t h ht
  | clock time => exact absurd he Bool.false_ne_true
  | newTask parent => exact id
  | start u => exact id
  | wake u => exact id
  | error u => exact id
  | abort u => exact id
  | runTasks => exact id
  | pollTasks => exact id
  | advance => exact id

theorem chains_step (hlt : ∀ u ∈ k.pings, u < k.runner.count) {e : PingEvent} (hf : k.Fine e) :
    (k.step e).chains ≤ k.chains := by
  cases e with
  | tick milliseconds => exact chains_le rfl (fun u _ => id) le_rfl
  | dispatch m => exact chains_dispatch hlt m
  | reply u type =>
    rw [step]
    split_ifs with hl
    · exact chains_handleStanza hl (hf hl)
    · exact le_rfl
  | process sends =>
    rw [step]
    split
    · next u hu =>
      split_ifs
      · exact chains_processPing hu sends
      · exact le_rfl
    · exact le_rfl
  | runner e =>
    rw [step]
    split_ifs with he
    · exact chains_le rfl (fun u hu => awaits_of
        (TaskRunner.holds_step e (.inl (hlt u hu)) (not_about he hu)).task.done id) le_rfl
    · exact le_rfl

/-! ### What a step keeps -/

theorem Inv.goesOn (h : k.Inv) {w : TaskRunner} (hliving : w.Living)
    (hcount : k.runner.count ≤ w.count) (htime : w.current_time = k.runner.current_time)
    (htask : ∀ t ∈ k.pings, (k.runner.task t).Holds (w.task t)) :
    Inv { k with runner := w } where
  living := hliving
  clock := htime.trans h.clock
  lt := fun t ht => (h.lt t ht).trans_le hcount
  timed := fun t ht => (h.timed t ht).holds (htask t ht)
  mem := h.mem
  replied := h.replied
  timeouts := h.timeouts

theorem Inv.queue (h : k.Inv) (queue : List (ℕ × PingMessage)) : Inv { k with queue := queue } :=
  ⟨h.living, h.clock, h.lt, h.timed, h.mem, h.replied, h.timeouts⟩

theorem Inv.tick (h : k.Inv) (milliseconds : ℕ) : (k.step (.tick milliseconds)).Inv where
  living := living_step h.living (.clock _) trivial
  clock := rfl
  lt := h.lt
  timed := fun t ht => ⟨(h.timed t ht).fresh, fun s hs =>
    have hcount := (h.timed t ht).counting s hs
    ⟨hcount.le.trans (Nat.le_add_right _ _), hcount.fits, hcount.timeout_time, hcount.state⟩⟩
  mem := h.mem
  replied := h.replied
  timeouts := fun t now ht =>
    ⟨(h.timeouts t now ht).1.trans (Nat.le_add_right _ _), (h.timeouts t now ht).2⟩

theorem Inv.newPing (h : k.Inv) : k.newPing.Inv := by
  rw [KeepAlive.newPing]
  split_ifs with hclient
  · set w := k.runner.newTask (some k.client) with hw
    have hself : w.task k.runner.count = .new (some k.client) := Function.update_self ..
    have hthere : w.isThere k.runner.count = true :=
      decide_eq_true ⟨Nat.lt_succ_self _, (h.living.fresh _ le_rfl).2⟩
    have hunlisted : k.runner.count ∉ w.tasks :=
      fun hmem => absurd (h.living.listed _ hmem).1 (lt_irrefl _)
    have hnew : w.Living := by
      refine living_newTask h.living fun p hp => ?_
      obtain rfl := Option.some.inj hp
      exact hclient
    have hholds := TaskRunner.holds_start (t := k.runner.count) w k.runner.count
    refine ⟨living_start hnew hthere fun _ => hunlisted, hholds.current_time.trans h.clock,
      fun t ht => ?_, fun t ht => ?_, fun t s hs => List.mem_append_left _ (h.mem t s hs),
      h.replied, h.timeouts⟩
    · obtain ht | ht := List.mem_append.1 ht
      · exact ((h.lt t ht).trans (Nat.lt_succ_self _)).trans_le hholds.count
      · rw [List.mem_singleton.1 ht]
        exact hholds.count
    · obtain ht | ht := List.mem_append.1 ht
      · exact (h.timed t ht).holds (holds_newPing (h.lt t ht) k.client).task
      · obtain rfl := List.mem_singleton.1 ht
        have hunsent : k.sent k.runner.count = none := by
          rw [Option.eq_none_iff_forall_ne_some]
          intro s hs
          exact lt_irrefl _ (h.lt _ (h.mem _ s hs))
        have hfresh : Fresh (w.task k.runner.count) := by
          rw [hself]
          exact ⟨rfl, rfl⟩
        refine ⟨fun _ => hfresh.holds hholds.task, fun s hs => ?_⟩
        exact absurd (hunsent.symm.trans hs) (Option.some_ne_none s).symm
  · exact h

theorem Inv.dispatch (h : k.Inv) (m : ℕ × PingMessage) : (k.dispatch m).Inv := by
  rw [KeepAlive.dispatch]
  split_ifs
  · have hrest := h.queue (k.queue.erase m)
    obtain ⟨due, message⟩ := m
    cases message with
    | ready => exact hrest.newPing
    | ping => exact hrest.newPing
    | wake u =>
      have hholds := fun t => TaskRunner.holds_call (TaskRunner.holds_wake (t := t) k.runner u)
      exact hrest.goesOn (living_call h.living fun _ => living_wake h.living u)
        (hholds 0).count (hholds 0).current_time fun t _ => (hholds t).task
  · exact h

theorem Inv.handleStanza (h : k.Inv) (hl : k.listens t = true) : (k.handleStanza t).Inv := by
  rw [listens, decide_eq_true_iff] at hl
  obtain ⟨-, hmem, -, -, hsent⟩ := hl
  have hholds := fun u => TaskRunner.holds_wake (t := u) k.runner t
  have hother : ∀ u, u ≠ t → (k.handleStanza t).replied u = k.replied u :=
    fun u hu => Function.update_of_ne hu ..
  have hset : (k.handleStanza t).replied t = some ((k.replied t).getD k.now) :=
    Function.update_self ..
  refine ⟨living_wake h.living t, (hholds 0).current_time.trans h.clock,
    fun u hu => (h.lt u hu).trans_le (hholds u).count,
    fun u hu => (h.timed u hu).holds (hholds u).task, h.mem, fun u hu => ?_, fun u now hu => ?_⟩
  · by_cases hut : u = t
    · subst hut
      exact absurd hu (Option.isSome_iff_ne_none.1 hsent)
    · rw [hother u hut]
      exact h.replied u hu
  · obtain ⟨hnow, s, hs, hle, hreplied⟩ := h.timeouts u now hu
    refine ⟨hnow, s, hs, hle, fun r hr => ?_⟩
    by_cases hut : u = t
    · subst hut
      rw [hset] at hr
      obtain rfl := Option.some.inj hr
      cases hold : k.replied u with
      | none => exact hle.trans hnow
      | some r => exact hreplied r hold
    · exact hreplied r ((hother u hut).symm.trans hr)

theorem Inv.raise (h : k.Inv) {s : ℕ} (hs : k.sent t = some s)
    (hle : s + pingTimeout * 1000 ≤ k.now)
    (hreplied : ∀ r, k.replied t = some r → s + pingTimeout * 1000 ≤ r) :
    Inv { k with timeouts := k.timeouts ++ [(t, k.now)] } where
  living := h.living
  clock := h.clock
  lt := h.lt
  timed := h.timed
  mem := h.mem
  replied := h.replied
  timeouts := by
    intro u now hu
    obtain hu | hu := List.mem_append.1 hu
    · exact h.timeouts u now hu
    · obtain ⟨rfl, rfl⟩ := Prod.mk.inj (List.mem_singleton.1 hu)
      exact ⟨le_rfl, s, hs, hle, hreplied⟩

theorem Inv.returns (h : k.Inv) (ht : t ∈ k.pings) (hp : k.runner.processing = some t)
    {w : TaskRunner} (hlife : w.life = k.runner.life) (hw : ∀ u, u ≠ t → Holds u k.runner w)
    (new_state : ℤ) {sent : ℕ → Option ℕ}
    (hsent : ∀ u, sent u = k.sent u ∨ u = t ∧ k.sent t = none)
    (hself : Timed (sent t) k.now ((w.processed new_state).task t))
    (queue : List (ℕ × PingMessage)) :
    Inv { k with runner := w.processed new_state, sent := sent, queue := queue } := by
  have hpw : w.processing = some t := (processing_of_life hlife).trans hp
  have hother : ∀ u, u ≠ t → Holds u k.runner (w.processed new_state) :=
    fun u hu => (hw u hu).trans (holds_processed hpw hu new_state)
  have hfar := hother (t + 1) (Nat.succ_ne_self t)
  have hunsent : ∀ u, sent u = none → k.sent u = none := by
    intro u hu
    obtain hsame | ⟨rfl, hnone⟩ := hsent u
    · exact hsame.symm.trans hu
    · exact hnone
  have hstill : ∀ u s, k.sent u = some s → sent u = some s := by
    intro u s hs
    obtain hsame | ⟨rfl, hnone⟩ := hsent u
    · exact hsame.trans hs
    · exact absurd (hnone.symm.trans hs) (Option.some_ne_none s).symm
  refine ⟨living_processed (h.living.of_life hlife) new_state,
    hfar.current_time.trans h.clock, fun u hu => (h.lt u hu).trans_le hfar.count, fun u hu => ?_,
    fun u s hs => ?_, fun u hu => h.replied u (hunsent u hu), fun u now hu => ?_⟩
  · by_cases hut : u = t
    · rw [hut]
      exact hself
    · obtain hsame | ⟨heq, -⟩ := hsent u
      · have htimed := (h.timed u hu).holds (hother u hut).task
        rw [← hsame] at htimed
        exact htimed
      · exact absurd heq hut
  · obtain hsame | ⟨rfl, -⟩ := hsent u
    · exact h.mem u s (hsame.symm.trans hs)
    · exact ht
  · obtain ⟨hnow, s, hs, hrest⟩ := h.timeouts u now hu
    exact ⟨hnow, s, hstill u s hs, hrest⟩

theorem Timed.processed {sent : Option ℕ} {now : ℕ} {w : TaskRunner}
    (h : Timed sent now (w.task t)) (hp : w.processing = some t) {new_state : ℤ}
    (hnew : sent = none ∨ new_state = stateBlocked ∨ new_state = stateDone ∨
      new_state = stateError) :
    Timed sent now ((w.processed new_state).task t) where
  fresh := fun hs => (h.fresh hs).processed hp new_state
  counting := fun s hs => (h.counting s hs).processed hp
    (hnew.resolve_left fun hnone => Option.some_ne_none s (hs.symm.trans hnone))

theorem Inv.processPing (h : k.Inv) (ht : t ∈ k.pings) (hp : k.runner.processing = some t)
    {sends : Bool} (hf : k.Fine (.process sends)) : (k.processPing t sends).Inv := by
  obtain ⟨hreplied, hfits⟩ := hf t hp ht
  have htimed := h.timed t ht
  have hsame : ∀ u, k.sent u = k.sent u ∨ u = t ∧ k.sent t = none := fun _ => .inl rfl
  have hrefl : ∀ u, u ≠ t → Holds u k.runner k.runner := fun u _ => .refl u _
  -- a task in its `Process` is not done; in its first two states it was not sent
  have hdone : (k.runner.task t).done = false :=
    h.living.processing t (processing_iff.1 hp)
  have hunsent : (k.runner.task t).state = stateInit ∨ (k.runner.task t).state = stateStart →
      k.sent t = none := by
    intro hstate
    rw [Option.eq_none_iff_forall_ne_some]
    intro s hs
    obtain hd | ⟨hinit, hstart⟩ := (htimed.counting s hs).state
    · exact absurd (hdone.symm.trans hd) Bool.false_ne_true
    · exact hstate.elim hinit hstart
  rw [KeepAlive.processPing]
  split_ifs with hout hinit hstart hresponse hend
  · -- the timeout runs out
    have hsome : ∃ s, k.sent t = some s := by
      rw [← Option.ne_none_iff_exists']
      intro hnone
      rw [timedOut, decide_eq_true_iff] at hout
      exact hout.1 (htimed.fresh hnone).timeout_seconds
    obtain ⟨s, hs⟩ := hsome
    have hcount := htimed.counting s hs
    have hraised := h.raise hs (hcount.elapsed h.clock hout) (by
      intro r hr
      by_contra hlt
      have hnot := hreplied ⟨s, hs, r, hr, not_le.1 hlt⟩
      exact absurd (hnot.symm.trans hout) Bool.false_ne_true)
    have hclear := clearTimeout_self k.runner t
    have hpw := (processing_of_life (life_clearTimeout k.runner t)).trans hp
    refine hraised.returns ht hp (life_clearTimeout _ t) (fun u hu => holds_clearTimeout hu)
      stateDone hsame ?_ k.queue
    refine Timed.processed ⟨fun hnone => ?_, fun s' hs' => ?_⟩ hpw (.inr (.inr (.inl rfl)))
    · refine Fresh.holds ?_ hclear
      exact ⟨(htimed.fresh hnone).timeout_seconds, rfl⟩
    · have hcount' := htimed.counting s' hs'
      refine Counting.holds ?_ hclear
      exact ⟨hcount'.le, hcount'.fits, .inl rfl, hcount'.state⟩
  · exact h.returns ht hp rfl hrefl stateStart hsame
      (htimed.processed hp (.inl (hunsent (.inl hinit)))) k.queue
  · rw [processStart]
    split_ifs with hsends
    · -- the ping is sent
      have hnone := hunsent (.inr hstart)
      refine h.returns ht hp (life_setTimeoutSeconds _ t _)
        (fun u hu => holds_setTimeoutSeconds hu _) stateResponse (fun u => ?_) ?_ k.queue
      · by_cases hut : u = t
        · exact .inr ⟨hut, hnone⟩
        · exact .inl (Function.update_of_ne hut ..)
      · rw [Function.update_self]
        refine ⟨fun hn => absurd hn (Option.some_ne_none _), fun s hs => ?_⟩
        obtain rfl := Option.some.inj hs
        exact counting_sent h.clock (hfits hstart hsends) hp
    · exact h.returns ht hp rfl hrefl stateError hsame
        (htimed.processed hp (.inr (.inr (.inr rfl)))) k.queue
  · rw [processResponse]
    split_ifs
    · exact h.returns ht hp rfl hrefl stateDone hsame
        (htimed.processed hp (.inr (.inr (.inl rfl)))) k.queue
    · exact h.returns ht hp rfl hrefl stateBlocked hsame
        (htimed.processed hp (.inr (.inl rfl))) _
  · exact h.returns ht hp rfl hrefl stateBlocked hsame
      (htimed.processed hp (.inr (.inl rfl))) k.queue
  · exact h.returns ht hp rfl hrefl stateError hsame
      (htimed.processed hp (.inr (.inr (.inr rfl)))) k.queue

theorem regular_of_mayRun {e : TaskEvent} (he : k.mayRun e = true) : k.runner.Regular e := by
  cases e with
  | start u => exact (of_decide_eq_true he).2
  | newTask parent =>
    cases parent with
    | none => trivial
    | some p => exact of_decide_eq_true he p rfl
  | _ => trivial

theorem inv_step (h : k.Inv) {e : PingEvent} (hf : k.Fine e) : (k.step e).Inv := by
  cases e with
  | tick milliseconds => exact h.tick milliseconds
  | dispatch m => exact h.dispatch m
  | reply u type =>
    rw [step]
    split_ifs with hl
    · exact h.handleStanza hl
    · exact h
  | process sends =>
    rw [step]
    split
    · next u hu =>
      split_ifs with hmem
      · exact h.processPing hmem hu hf
      · exact h
    · exact h
  | runner e =>
    rw [step]
    split_ifs with he
    · have hclock : ∀ time, e ≠ .clock time := by
        rintro time rfl
        exact absurd he Bool.false_ne_true
      obtain ⟨hcount, htime⟩ := goes_step (w := k.runner) hclock
      exact h.goesOn (living_step h.living e (regular_of_mayRun he)) hcount htime
        fun t ht => (holds_step e (.inl (h.lt t ht)) (not_about he ht)).task
    · exact h

/-! ### Runs -/

theorem inv_start {runner : TaskRunner} (h : runner.Living) (client now : ℕ) :
    (start runner client now).Inv where
  living := living_step h (.clock _) trivial
  clock := rfl
  lt := fun _ ht => absurd ht List.not_mem_nil
  timed := fun _ ht => absurd ht List.not_mem_nil
  mem := fun _ s hs => absurd hs (Option.some_ne_none s).symm
  replied := fun _ _ => rfl
  timeouts := fun _ _ ht => absurd ht List.not_mem_nil

theorem chains_start (runner : TaskRunner) (client now : ℕ) :
    (start runner client now).chains = 1 := rfl

theorem Inv.keepsAlive (h : k.Inv) (hchains : k.chains ≤ 1) : k.KeepsAlive :=
  ⟨hchains, fun t now ht => (h.timeouts t now ht).2⟩

theorem inv_run (h : k.Inv) {es : List PingEvent} (hf : k.FineRun es) :
    (k.run es).Inv ∧ (k.run es).chains ≤ k.chains := by
  induction es generalizing k with
  | nil => exact ⟨h, le_rfl⟩
  | cons e es ih =>
    obtain ⟨hinv, hle⟩ := ih (inv_step h hf.1) hf.2
    exact ⟨hinv, hle.trans (chains_step h.lt hf.1)⟩

/-- **The connection is kept alive by one chain of pings**, in every run whose steps are
fine. -/
theorem keepsAlive_run (before : List TaskEvent) (client now : ℕ) (es : List PingEvent)
    (hb : RegularRun init before) (hf : (start (init.run before) client now).FineRun es) :
    ((start (init.run before) client now).run es).KeepsAlive := by
  have hliving := living_run init_living hb
  obtain ⟨hinv, hchains⟩ := inv_run (inv_start hliving client now) hf
  exact hinv.keepsAlive (hchains.trans (chains_start _ client now).le)

/-- A ping is sent, and waits. -/
def firstPing : List PingEvent :=
  [.tick 1500, .dispatch (1500, .ready), .runner .runTasks, .runner .advance, .process true,
    .runner .advance, .process true, .runner .advance, .process true, .runner .advance,
    .runner .advance, .runner .advance, .runner .advance]

theorem keepsAlive_run_firstPing :
    ((start (init.run [.newTask none]) 0 0).run (firstPing ++ [.reply 1 .error])).KeepsAlive :=
  keepsAlive_run [.newTask none] 0 0 _ ⟨trivial, trivial⟩ (by decide)

/-- **The pings are not one chain**: a ping that is replied to twice before the runner comes
to it posts two messages. -/
theorem not_keepsAlive : ¬∀ (before : List TaskEvent) (client now : ℕ) (es : List PingEvent),
    RegularRun init before → ((start (init.run before) client now).run es).KeepsAlive := by
  intro h
  have hsingle := (h [.newTask none] 0 0 (firstPing ++ [.reply 1 .result, .reply 1 .result])
    ⟨trivial, trivial⟩).single
  have htwo : ((start (init.run [.newTask none]) 0 0).run
      (firstPing ++ [.reply 1 .result, .reply 1 .result])).chains = 2 := by
    decide
  rw [htwo] at hsingle
  exact absurd hsingle (by decide)

end KeepAlive

end Jingle.Service
