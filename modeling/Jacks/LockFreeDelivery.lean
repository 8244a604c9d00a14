import Jacks.QueueAlone
import Jacks.Delivery

/-!
# Event delivery over the lock-free queue

The callbacks and `JacksRbClient_get_event` around the queue as it is: what `Delivery`
takes as one atomic `queue_enqueue` or `queue_dequeue` is here the calls of the lock-free
queue, access by access, with the other threads in between.

Between the look of a consumer that finds the queue empty and its wait, a value may go
in.  That value is paid for by the post that follows it, not by the consumer, so a
consumer counts only while it has not yet looked in vain (`pays`).  The account is kept
by the steps of the specification of the queue (`Account.queue`), and no wake-up is lost
(`lockFree_getEvent_delivers`).
-/

namespace Jacks

open Foundations

universe u v w

/-! ## The machine -/

/-- Where a thread is around the queue. -/
inductive ClientPc (α : Type v)
  | outside
  /-- In the `queue_enqueue` of a callback. -/
  | enqueue (onFull : OnFull)
  | post
  /-- In the `queue_dequeue` of `get_event`. -/
  | dequeue
  | semWait
  | returning (je : α)
  deriving DecidableEq

/-- The queue with the threads in it, the semaphore, and where the threads are around
the queue. -/
structure LockFreeDelivery (ι : Type w) (ν : Type u) (α : Type v) where
  queue : Threads ι (QueueState ν α) (QueuePc ν α)
  mutex : ℕ
  client : ι → ClientPc α

/-- What a thread does next. -/
inductive ClientAct (α : Type v)
  | callback (event : α) (onFull : OnFull)
  | getEvent
  /-- The next access in the call of the queue that it is in. -/
  | access
  | post
  | wait
  | interrupt
  | giveBack
  deriving DecidableEq

/-- Where a thread goes on when its call of the queue has returned. -/
def ClientPc.after {ι : Type w} {α : Type v} (client : ClientPc α) :
    Option (FifoObs ι α) → ClientPc α
  | some (.accepted _ _) => .post
  | some (.refused _ _) =>
      match client with
      | .enqueue .giveUp => .outside
      | _ => .post
  | some (.foundEmpty _) => .semWait
  | some (.returned _ je) => .returning je
  | _ => client

section Machine

variable {ι : Type w} {ν : Type u} {α : Type v} [DecidableEq ι]
variable (queue : TraceSystem (Threads ι (QueueState ν α) (QueuePc ν α)) (ι × QueueAct α)
  (FifoObs ι α))

/-- A step in the queue, after which the thread is at `client` around it and the
semaphore at `mutex`. -/
def LockFreeDelivery.inQueue (s : LockFreeDelivery ι ν α) (t : ι) (act : QueueAct α) (mutex : ℕ)
    (client : Option (FifoObs ι α) → ClientPc α) :
    Option (LockFreeDelivery ι ν α × Option (FifoObs ι α)) :=
  match queue.next s.queue (t, act) with
  | none => none
  | some (q, o) =>
      some ({ queue := q, mutex := mutex, client := Function.update s.client t (client o) }, o)

/-- One step. -/
def LockFreeDelivery.next (s : LockFreeDelivery ι ν α) (t : ι) :
    ClientAct α → Option (LockFreeDelivery ι ν α × Option (FifoObs ι α))
  | .callback event onFull =>
      match s.client t with
      | .outside => s.inQueue queue t (.enqueue event) s.mutex fun _ => .enqueue onFull
      | _ => none
  | .getEvent =>
      match s.client t with
      | .outside => s.inQueue queue t .dequeue s.mutex fun _ => .dequeue
      | _ => none
  | .access =>
      match s.client t with
      | .enqueue onFull => s.inQueue queue t .go s.mutex (ClientPc.enqueue onFull).after
      | .dequeue => s.inQueue queue t .go s.mutex ClientPc.dequeue.after
      | _ => none
  | .post =>
      match s.client t with
      | .post =>
          some ({ s with mutex := s.mutex + 1, client := Function.update s.client t .outside },
            none)
      | _ => none
  | .wait =>
      match s.client t, s.mutex with
      | .semWait, tokens + 1 => s.inQueue queue t .dequeue tokens fun _ => .dequeue
      | _, _ => none
  | .interrupt =>
      match s.client t with
      | .semWait => s.inQueue queue t .dequeue s.mutex fun _ => .dequeue
      | _ => none
  | .giveBack =>
      match s.client t with
      | .returning _ => some ({ s with client := Function.update s.client t .outside }, none)
      | _ => none

/-- Event delivery as `JacksRbClient_new` sets it up, over a given queue. -/
def lockFreeDelivery : TraceSystem (LockFreeDelivery ι ν α) (ι × ClientAct α) (FifoObs ι α) where
  init := { queue := queue.init, mutex := 1, client := fun _ => .outside }
  next s a := s.next queue a.1 a.2

end Machine

/-! ## What a step does -/

section Steps

variable {ι : Type w} {ν : Type u} {α : Type v} [DecidableEq ι]
variable {queue : TraceSystem (Threads ι (QueueState ν α) (QueuePc ν α)) (ι × QueueAct α)
  (FifoObs ι α)}

/-- What a thread does around the queue while it makes a step in it: where it was and
where it goes, and what the step does to the semaphore. -/
inductive Around (mutex : ℕ) : ClientPc α → QueueAct α → ℕ →
    (Option (FifoObs ι α) → ClientPc α) → Prop
  | callback {event : α} {onFull : OnFull} :
      Around mutex .outside (.enqueue event) mutex fun _ => .enqueue onFull
  | getEvent : Around mutex .outside .dequeue mutex fun _ => .dequeue
  | enqueueGo {onFull : OnFull} :
      Around mutex (.enqueue onFull) .go mutex (ClientPc.enqueue onFull).after
  | dequeueGo : Around mutex .dequeue .go mutex ClientPc.dequeue.after
  | wait {tokens : ℕ} (available : mutex = tokens + 1) :
      Around mutex .semWait .dequeue tokens fun _ => .dequeue
  | interrupt : Around mutex .semWait .dequeue mutex fun _ => .dequeue

/-- What a step can do: a step in the queue, a post, or the return of `get_event`. -/
inductive LockFreeDelivery.Step (queue : TraceSystem (Threads ι (QueueState ν α) (QueuePc ν α))
    (ι × QueueAct α) (FifoObs ι α)) (s : LockFreeDelivery ι ν α) (t : ι) :
    LockFreeDelivery ι ν α → Option (FifoObs ι α) → Prop
  | inQueue {act mutex client q o} (around : Around s.mutex (s.client t) act mutex client)
      (moves : queue.next s.queue (t, act) = some (q, o)) :
      Step queue s t
        { queue := q, mutex := mutex, client := Function.update s.client t (client o) } o
  | post (here : s.client t = .post) :
      Step queue s t
        { s with mutex := s.mutex + 1, client := Function.update s.client t .outside } none
  | giveBack {je} (here : s.client t = .returning je) :
      Step queue s t { s with client := Function.update s.client t .outside } none

theorem LockFreeDelivery.of_inQueue {s s' : LockFreeDelivery ι ν α} {t : ι} {act : QueueAct α}
    {mutex : ℕ} {client : Option (FifoObs ι α) → ClientPc α} {o : Option (FifoObs ι α)}
    (around : Around s.mutex (s.client t) act mutex client)
    (moves : s.inQueue queue t act mutex client = some (s', o)) : Step queue s t s' o := by
  unfold inQueue at moves
  split at moves
  · cases moves
  · next q o' step => cases moves; exact .inQueue around step

/-- `next` does nothing else. -/
theorem LockFreeDelivery.step_of_next {s s' : LockFreeDelivery ι ν α} {t : ι} {a : ClientAct α}
    {o : Option (FifoObs ι α)} (moves : s.next queue t a = some (s', o)) :
    Step queue s t s' o := by
  cases a with
  | callback event onFull =>
      simp only [next] at moves
      split at moves
      · next here => exact of_inQueue (by rw [here]; exact .callback) moves
      · cases moves
  | getEvent =>
      simp only [next] at moves
      split at moves
      · next here => exact of_inQueue (by rw [here]; exact .getEvent) moves
      · cases moves
  | access =>
      simp only [next] at moves
      split at moves
      · next onFull here => exact of_inQueue (by rw [here]; exact .enqueueGo) moves
      · next here => exact of_inQueue (by rw [here]; exact .dequeueGo) moves
      · cases moves
  | post =>
      simp only [next] at moves
      split at moves
      · next here => cases moves; exact .post here
      · cases moves
  | wait =>
      simp only [next] at moves
      split at moves
      · next here available => exact of_inQueue (by rw [here]; exact .wait available) moves
      · cases moves
  | interrupt =>
      simp only [next] at moves
      split at moves
      · next here => exact of_inQueue (by rw [here]; exact .interrupt) moves
      · cases moves
  | giveBack =>
      simp only [next] at moves
      split at moves
      · next here => cases moves; exact .giveBack here
      · cases moves

end Steps

/-! ## The account -/

/-- Where a thread is, in the queue and around it. -/
abbrev Whereabouts (α : Type v) := FifoPhase α × ClientPc α

/-- The thread pays for a value inside: it is yet to look, or it is yet to post. -/
def Whereabouts.pays {α : Type v} : Whereabouts α → Bool
  | (.dequeuing false, _) => true
  | (.appended _, _) => true
  | (_, .post) => true
  | _ => false

/-- In the queue a thread is in the call that it has made around it. -/
def Whereabouts.Fits {α : Type v} : Whereabouts α → Prop
  | (.idle, .outside) | (.idle, .post) | (.idle, .semWait) | (.idle, .returning _) => True
  | (.enqueuing _, .enqueue _) | (.placed _, .enqueue _) | (.appended _, .enqueue _) => True
  | (.dequeuing _, .dequeue) | (.taken _, .dequeue) => True
  | _ => False

section Account

variable {ι : Type w} {ν : Type u} {α : Type v}

/-- Where the threads are. -/
def whereabouts (q : PlacedFifo ι α) (client : ι → ClientPc α) (t : ι) : Whereabouts α :=
  (q.phase t, client t)

/-- Every value inside is paid for: by a token, or by a thread. -/
structure Account [Fintype ι] (q : PlacedFifo ι α) (mutex : ℕ) (client : ι → ClientPc α) :
    Prop where
  fits : ∀ t, (whereabouts q client t).Fits
  awake : q.items.length ≤ mutex + countAt (whereabouts q client) Whereabouts.pays

/-- In no call around the queue, in none in it. -/
theorem Whereabouts.Fits.idle {phase : FifoPhase α} {c : ClientPc α}
    (fits : Whereabouts.Fits (phase, c)) (notDequeue : c ≠ .dequeue)
    (notEnqueue : ∀ onFull, c ≠ .enqueue onFull) : phase = .idle := by
  cases phase with
  | idle => rfl
  | enqueuing | placed | appended =>
      cases c with
      | enqueue onFull => exact absurd rfl (notEnqueue onFull)
      | _ => cases fits
  | dequeuing | taken =>
      cases c with
      | dequeue => exact absurd rfl notDequeue
      | _ => cases fits

theorem Account.idle [Fintype ι] {q : PlacedFifo ι α} {mutex : ℕ} {client : ι → ClientPc α}
    {t : ι} {c : ClientPc α} (account : Account q mutex client) (here : client t = c)
    (notDequeue : c ≠ .dequeue) (notEnqueue : ∀ onFull, c ≠ .enqueue onFull) :
    q.phase t = .idle := by
  have fits := account.fits t
  rw [whereabouts, here] at fits
  exact Whereabouts.Fits.idle fits notDequeue notEnqueue

/-- A thread that is outside or waits pays for nothing. -/
theorem Account.pays_asleep [Fintype ι] {q : PlacedFifo ι α} {mutex : ℕ}
    {client : ι → ClientPc α} {t : ι} (account : Account q mutex client)
    (asleep : client t = .outside ∨ client t = .semWait) :
    Whereabouts.pays (whereabouts q client t) = false := by
  rw [whereabouts]
  rcases asleep with here | here
  · rw [account.idle here nofun nofun, here]
    rfl
  · rw [account.idle here nofun nofun, here]
    rfl

variable [DecidableEq ι]

/-- What one thread pays, before and after it has moved. -/
theorem pays_moved [Fintype ι] {q q' : PlacedFifo ι α} (client : ι → ClientPc α) {t : ι}
    (others : ∀ u, u ≠ t → q'.phase u = q.phase u) (c : ClientPc α) :
    countAt (whereabouts q' (Function.update client t c)) Whereabouts.pays +
        (Whereabouts.pays (q.phase t, client t)).toNat =
      countAt (whereabouts q client) Whereabouts.pays +
        (Whereabouts.pays (q'.phase t, c)).toNat := by
  have moved : whereabouts q' (Function.update client t c) =
      Function.update (whereabouts q client) t (q'.phase t, c) := by
    funext u
    by_cases same : u = t
    · subst same
      simp [whereabouts]
    · simp [whereabouts, same, others u same]
  rw [moved]
  exact countAt_update (whereabouts q client) Whereabouts.pays t (q'.phase t, c)

variable [Fintype ι] {q q' : PlacedFifo ι α} {mutex mutex' : ℕ} {client : ι → ClientPc α} {t : ι}

/-- One thread moves, and is in the queue where it is around it. -/
theorem Account.fits_moved {c : ClientPc α} (account : Account q mutex client)
    (others : ∀ u, u ≠ t → q'.phase u = q.phase u) (fits : Whereabouts.Fits (q'.phase t, c))
    (u : ι) : (whereabouts q' (Function.update client t c) u).Fits := by
  by_cases same : u = t
  · subst same
    simpa [whereabouts] using fits
  · have before := account.fits u
    rw [whereabouts] at before ⊢
    rwa [others u same, Function.update_of_ne same]

/-- One thread moves, and does not add more values than it adds tokens and promises. -/
theorem Account.moved {c : ClientPc α} (account : Account q mutex client)
    (others : ∀ u, u ≠ t → q'.phase u = q.phase u) (fits : Whereabouts.Fits (q'.phase t, c))
    (balance : q'.items.length + mutex + (Whereabouts.pays (q.phase t, client t)).toNat ≤
      q.items.length + mutex' + (Whereabouts.pays (q'.phase t, c)).toNat) :
    Account q' mutex' (Function.update client t c) := by
  refine ⟨account.fits_moved others fits, ?_⟩
  have moved := pays_moved client others c
  have awake := account.awake
  omega

/-- One thread moves and leaves the queue empty: there is nothing to pay for. -/
theorem Account.emptied {c : ClientPc α} (account : Account q mutex client)
    (others : ∀ u, u ≠ t → q'.phase u = q.phase u) (fits : Whereabouts.Fits (q'.phase t, c))
    (empty : q'.items = []) : Account q' mutex' (Function.update client t c) := by
  refine ⟨account.fits_moved others fits, ?_⟩
  rw [empty]
  exact Nat.zero_le _

/-- What is observed of a step in the queue, by what the thread is asked to do. -/
def Belongs (t : ι) : QueueAct α → Option (FifoObs ι α) → Prop
  | .enqueue userData, o => o = some (.enqueues t userData)
  | .dequeue, o => o = some (.dequeues t)
  | .go, o => PlacedFifo.NoCall o

/-- Each access of the `queue_enqueue` of a callback keeps the account: the thread that has
put a value in will post for it. -/
theorem Account.enqueueGo {onFull : OnFull} {o : Option (FifoObs ι α)}
    (account : Account q mutex client) (here : client t = .enqueue onFull)
    (belongs : Belongs t .go o) (step : PlacedFifo.Step q t q' o) :
    Account q' mutex (Function.update client t ((ClientPc.enqueue onFull).after o)) := by
  have fits := account.fits t
  rw [whereabouts, here] at fits
  have others := fun u (other : u ≠ t) => step.phase other
  cases step with
  | @refuse a phase full =>
      cases onFull with
      | _ =>
          refine account.moved others (by simp [Whereabouts.Fits, ClientPc.after]) ?_
          simp [phase, here, Whereabouts.pays, ClientPc.after]
  | @place a vacant phase room =>
      refine account.moved others (by simp [Whereabouts.Fits, ClientPc.after]) ?_
      simp [phase, here, Whereabouts.pays, ClientPc.after]
  | @append a phase =>
      refine account.moved others (by simp [Whereabouts.Fits, ClientPc.after]) ?_
      simp [phase, here, Whereabouts.pays, ClientPc.after]
      omega
  | @accept a phase =>
      refine account.moved others (by simp [Whereabouts.Fits, ClientPc.after]) ?_
      simp [phase, here, Whereabouts.pays, ClientPc.after]
  | callEnqueue => exact absurd rfl (belongs.1 _ _)
  | callDequeue => exact absurd rfl (belongs.2 _)
  | seeEmpty phase | returnEmpty phase | take phase | giveBack phase =>
      rw [phase] at fits
      cases fits

/-- Each access of a `queue_dequeue` of `get_event` keeps the account: a consumer that has
not yet looked in vain leaves with the value it was to pay for. -/
theorem Account.dequeueGo {o : Option (FifoObs ι α)} (account : Account q mutex client)
    (here : client t = .dequeue) (belongs : Belongs t .go o)
    (step : PlacedFifo.Step q t q' o) :
    Account q' mutex (Function.update client t (ClientPc.dequeue.after o)) := by
  have fits := account.fits t
  rw [whereabouts, here] at fits
  have others := fun u (other : u ≠ t) => step.phase other
  cases step with
  | @seeEmpty b phase empty =>
      -- nothing is inside, so there is nothing to pay for
      exact account.emptied others (by simp [Whereabouts.Fits, ClientPc.after]) empty
  | returnEmpty phase =>
      refine account.moved others (by simp [Whereabouts.Fits, ClientPc.after]) ?_
      simp [phase, here, Whereabouts.pays, ClientPc.after]
  | @take b a rest phase first =>
      refine account.moved others (by simp [Whereabouts.Fits, ClientPc.after]) ?_
      cases b with
      | false =>
          simp only [phase, here, first, Whereabouts.pays, List.length_cons,
            Bool.toNat_true, ClientPc.after]
          omega
      | true => simp [phase, here, first, Whereabouts.pays, ClientPc.after]
  | @giveBack a phase =>
      refine account.moved others (by simp [Whereabouts.Fits, ClientPc.after]) ?_
      simp [phase, here, Whereabouts.pays, ClientPc.after]
  | callEnqueue => exact absurd rfl (belongs.1 _ _)
  | callDequeue => exact absurd rfl (belongs.2 _)
  | refuse phase | place phase | append phase | accept phase =>
      rw [phase] at fits
      cases fits

/-- A callback that calls `queue_enqueue` has put nothing in yet. -/
theorem Account.callEnqueue {event : α} {onFull : OnFull} (account : Account q mutex client)
    (here : client t = .outside)
    (step : PlacedFifo.Step q t q' (some (.enqueues t event))) :
    Account q' mutex (Function.update client t (.enqueue onFull)) := by
  have others := fun u (other : u ≠ t) => step.phase other
  cases step with
  | callEnqueue phase =>
      refine account.moved others (by simp [Whereabouts.Fits]) ?_
      simp [phase, here, Whereabouts.pays]

/-- A thread that calls `queue_dequeue` will look, and that pays for the token it may have
taken. -/
theorem Account.callDequeue (account : Account q mutex client)
    (around : client t = .outside ∨ client t = .semWait) (tokens : mutex ≤ mutex' + 1)
    (step : PlacedFifo.Step q t q' (some (.dequeues t))) :
    Account q' mutex' (Function.update client t .dequeue) := by
  have asleep := account.pays_asleep around
  rw [whereabouts] at asleep
  have others := fun u (other : u ≠ t) => step.phase other
  cases step with
  | callDequeue phase =>
      refine account.moved others (by simp [Whereabouts.Fits]) ?_
      rw [asleep]
      simp [Whereabouts.pays]
      omega

/-- **The account is kept by every step in the queue**, whatever the thread does around
it. -/
theorem Account.queue {act : QueueAct α} {after : Option (FifoObs ι α) → ClientPc α}
    {o : Option (FifoObs ι α)} (account : Account q mutex client)
    (around : Around mutex (client t) act mutex' after) (belongs : Belongs t act o)
    {capacity : ℕ} (answers : (PlacedFifo.system ι α capacity).Answers t q q' o) :
    Account q' mutex' (Function.update client t (after o)) := by
  generalize here : client t = at_client at around
  cases answers with
  | idle =>
      -- an access that the specification does not see
      cases around with
      | enqueueGo | dequeueGo =>
          have unmoved : Function.update client t (client t) = client :=
            Function.update_eq_self t client
          rw [here] at unmoved
          exact unmoved.symm ▸ account
      | callback | getEvent | wait | interrupt => cases belongs
  | step moves =>
      have step := PlacedFifo.step_of_next moves
      cases around with
      | callback => cases belongs; exact account.callEnqueue here step
      | getEvent => cases belongs; exact account.callDequeue (.inl here) (Nat.le_succ _) step
      | interrupt => cases belongs; exact account.callDequeue (.inr here) (Nat.le_succ _) step
      | wait available =>
          cases belongs
          exact account.callDequeue (.inr here) available.le step
      | enqueueGo => exact account.enqueueGo here belongs step
      | dequeueGo => exact account.dequeueGo here belongs step

end Account

/-! ## All runs -/

section Runs

variable {ι : Type w} {ν : Type u} {α : Type v} [DecidableEq ν]

/-- What is observed of a step of the lock-free queue. -/
theorem belongs_of_advance {t : ι} {qs qs' : QueueState ν α} {pc p : QueuePc ν α}
    {act : QueueAct α} {o : Option (FifoObs ι α)}
    (taken : QueueState.advance t qs pc act = some (qs', p, o)) : Belongs t act o := by
  cases act with
  | go => exact noCall_of_go taken
  | enqueue | dequeue => cases QueueState.step_of_advance taken; rfl

variable [DecidableEq ι] {malloced : QueueState ν α} {null : α} {elements : List ν} {capacity : ℕ}
variable {s : LockFreeDelivery ι ν α} {history : List (FifoObs ι α)}

/-- No counter comes round, and no link is stale. -/
def CarefulDelivery (s : LockFreeDelivery ι ν α) (_ : List (FifoObs ι α))
    (a : ι × ClientAct α) : Prop :=
  s.queue.mem.Headroom ∧ ¬ StaleLink s.queue a.1

instance decidableCarefulDelivery [Fintype ι] (s : LockFreeDelivery ι ν α)
    (history : List (FifoObs ι α)) (a : ι × ClientAct α) :
    Decidable (CarefulDelivery s history a) :=
  inferInstanceAs (Decidable (_ ∧ _))

/-- A state of event delivery in which everything is in order: the queue has come there by
itself, and the values inside are paid for. -/
structure Delivers [Fintype ι] (malloced : QueueState ν α) (null : α) (elements : List ν)
    (capacity : ℕ) (s : LockFreeDelivery ι ν α) (history : List (FifoObs ι α)) : Prop where
  queue : (lockFreeQueue ι malloced null elements).ReachesUnder Careful s.queue history
  account : ∃ g, (queueOutline capacity).Describes s.queue g ∧
    (PlacedFifo.system ι α capacity).Reaches g.spec history ∧ Account g.spec s.mutex s.client

/-- Each step keeps everything in order. -/
theorem Delivers.step [Fintype ι] {s' : LockFreeDelivery ι ν α} {t : ι}
    {o : Option (FifoObs ι α)} (inv : Delivers malloced null elements capacity s history)
    (careful : Careful s.queue history (t, .go))
    (moves : LockFreeDelivery.Step (lockFreeQueue ι malloced null elements) s t s' o) :
    Delivers malloced null elements capacity s' (history ++ o.toList) := by
  obtain ⟨queue, g, described, reached, account⟩ := inv
  cases moves with
  | @inQueue act mutex client q o around moves =>
      have careful : Careful s.queue history (t, act) := careful
      obtain ⟨g', described', answers⟩ := described.step careful moves
      obtain ⟨m, p, taken, -⟩ := Advance.of_next moves
      exact ⟨.step queue careful moves, g', described', answers.reaches reached,
        account.queue around (belongs_of_advance taken) answers⟩
  | post here =>
      refine ⟨by simpa using queue, g, described, by simpa using reached, ?_⟩
      have phase := account.idle here nofun nofun
      refine account.moved (fun _ _ => rfl) (by rw [phase]; trivial) ?_
      simp only [phase, here, Whereabouts.pays, Bool.toNat_true]
      omega
  | giveBack here =>
      refine ⟨by simpa using queue, g, described, by simpa using reached, ?_⟩
      have phase := account.idle here nofun nofun
      refine account.moved (fun _ _ => rfl) (by rw [phase]; trivial) ?_
      simp [phase, here, Whereabouts.pays]

/-- In every run everything is in order. -/
theorem lockFree_delivers [Fintype ι] (distinct : elements.Nodup)
    (count : elements.length = capacity + 1) (few : capacity + 1 < atomValues)
    (run : (lockFreeDelivery (lockFreeQueue ι malloced null elements)).ReachesUnder
      CarefulDelivery s history) : Delivers malloced null elements capacity s history := by
  refine run.induct (I := Delivers malloced null elements capacity) ?_ ?_
  · obtain ⟨g, described, spec⟩ : ∃ g : QueueGhost ι ν α, (queueOutline capacity).Describes
        (lockFreeQueue ι malloced null elements).init g ∧
          g.spec = (PlacedFifo.system ι α capacity).init :=
      lockFreeQueue_starts distinct count few
    refine ⟨.init, g, described, by rw [spec]; exact .init, ?_⟩
    rw [spec]
    exact ⟨fun t => trivial, Nat.zero_le _⟩
  · intro s history a s' o _ inv careful moves
    exact inv.step careful (LockFreeDelivery.step_of_next moves)

/-- A state nobody would ever leave although a value is inside: there is no token, and
every thread is outside or waits for one. -/
def LockFreeDelivery.LostWakeUp (s : LockFreeDelivery ι ν α) (history : List (FifoObs ι α)) :
    Prop :=
  (PlacedFifo.taken history).length < (PlacedFifo.appended history).length ∧ s.mutex = 0 ∧
    ∀ t, s.client t = .outside ∨ s.client t = .semWait

/-- **Over the lock-free queue, too, event delivery loses no wake-up and no event.**  In
every state of every run, for any number of threads in callbacks and in `get_event`, with
their accesses to the queue in any order: the events taken are a prefix of the events
put in, each thread's calls return what they have taken, and the state is not one of a
lost wake-up. -/
theorem lockFree_getEvent_delivers [Fintype ι] (distinct : elements.Nodup)
    (count : elements.length = capacity + 1) (few : capacity + 1 < atomValues)
    (run : (lockFreeDelivery (lockFreeQueue ι malloced null elements)).ReachesUnder
      CarefulDelivery s history) :
    (PlacedFifo.taken history <+: PlacedFifo.appended history ∧
      ∀ t, PlacedFifo.takenBy history t =
        PlacedFifo.returnedBy history t ++ (s.queue.pc t).inHand) ∧
      ¬ s.LostWakeUp history := by
  obtain ⟨queue, g, described, reached, account⟩ :=
    lockFree_delivers distinct count few run
  have conserves := PlacedFifo.reaches_conserves reached
  refine ⟨⟨conserves.returned_isPrefix, fun t =>
    (lockFreeQueue_reports distinct count few queue t).2⟩, ?_⟩
  rintro ⟨waiting, noToken, asleep⟩
  have nobody : countAt (whereabouts g.spec s.client) Whereabouts.pays = 0 :=
    countAt_eq_zero_iff.mpr fun t => account.pays_asleep (asleep t)
  have awake := account.awake
  have length := conserves.length
  omega

/-- The script looks twice in vain and sleeps; the event of a callback wakes it. -/
def wokenAtLast : List (Bool × ClientAct ℕ) :=
  List.flatten [
    (true, .getEvent) :: List.replicate 8 (true, .access),
    (true, .wait) :: List.replicate 8 (true, .access),
    (false, .callback 7 .giveUp) :: List.replicate 19 (false, .access),
    [(false, .post)],
    (true, .wait) :: List.replicate 17 (true, .access)]

def wokenAtLastHistory : List (FifoObs Bool ℕ) :=
  [.dequeues true, .foundEmpty true, .dequeues true, .foundEmpty true, .enqueues false 7,
    .appended false 7, .accepted false 7, .dequeues true, .taken true 7, .returned true 7]

theorem lockFree_getEvent_delivers_wokenAtLast : ∃ s,
    (lockFreeDelivery twoPlaces).exec (lockFreeDelivery twoPlaces).init [] wokenAtLast =
        some (s, wokenAtLastHistory) ∧
      (PlacedFifo.taken wokenAtLastHistory <+: PlacedFifo.appended wokenAtLastHistory ∧
        ∀ t, PlacedFifo.takenBy wokenAtLastHistory t =
          PlacedFifo.returnedBy wokenAtLastHistory t ++ (s.queue.pc t).inHand) ∧
      ¬ s.LostWakeUp wokenAtLastHistory := by
  have played : ((lockFreeDelivery twoPlaces).exec (lockFreeDelivery twoPlaces).init []
      wokenAtLast).map Prod.snd = some wokenAtLastHistory := by
    decide +kernel
  obtain ⟨s, plays, run⟩ := (lockFreeDelivery twoPlaces).exists_reachesUnder CarefulDelivery
    wokenAtLast (by decide +kernel) played
  exact ⟨s, plays, lockFree_getEvent_delivers (by decide) rfl (by decide) run⟩

end Runs

end Jacks
