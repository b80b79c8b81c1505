import StageGate.Backoff
import StageGate.Key

/-!
# The work queue

Keys of promotions that wait for a worker. A key waits once however often it is asked for, and a key
that a worker holds is parked until the worker is done with it. A request may also lie in wait until
it falls due. Time is a reading of a clock, in nanoseconds.
-/

namespace StageGate

abbrev Instant := Nat

structure Delayed where
  due : Instant
  key : PromotionKey
deriving DecidableEq, Repr

structure WorkQueue where
  /-- Keys ready for a worker, in the order they are handed out. -/
  ready : List PromotionKey := []
  /-- Keys asked for and not handed out since: the ready ones and the parked ones. -/
  dirty : List PromotionKey := []
  held : List PromotionKey := []
  /-- By due time; of two requests due together the earlier one comes first. -/
  delayed : List Delayed := []
  /-- A closed queue takes no more requests. -/
  closed : Bool := false
  backoff : Backoff PromotionKey

namespace WorkQueue

def size (q : WorkQueue) : Nat := q.ready.length

def isIdle (q : WorkQueue) : Bool := q.ready.isEmpty && q.held.isEmpty && q.delayed.isEmpty

def add (q : WorkQueue) (key : PromotionKey) : WorkQueue :=
  if q.closed || q.dirty.contains key then q
  else if q.held.contains key then { q with dirty := key :: q.dirty }
  else { q with dirty := key :: q.dirty, ready := q.ready ++ [key] }

/-- Puts a request behind all that are due no later. -/
def schedule (d : Delayed) : List Delayed → List Delayed
  | [] => [d]
  | e :: rest => if e.due ≤ d.due then e :: schedule d rest else d :: e :: rest

def addAfter (q : WorkQueue) (now : Instant) (key : PromotionKey) (delay : Duration) : WorkQueue :=
  if delay.isZero then q.add key
  else if q.closed then q
  else { q with delayed := schedule ⟨now + delay.nanos, key⟩ q.delayed }

/-- Counts a failure of the key even where the queue takes no request. -/
def addRateLimited (q : WorkQueue) (now : Instant) (key : PromotionKey) (stretch : Duration) :
    WorkQueue :=
  let (delay, backoff) := q.backoff.record key stretch
  { q with backoff }.addAfter now key delay

def ripen (q : WorkQueue) (now : Instant) : WorkQueue :=
  ((q.delayed.takeWhile (·.due ≤ now)).map Delayed.key).foldl add
    { q with delayed := q.delayed.dropWhile (·.due ≤ now) }

def take (q : WorkQueue) : Option PromotionKey × WorkQueue :=
  match q.ready with
  | [] => (none, q)
  | key :: rest =>
    (some key, { q with
      ready := rest
      dirty := q.dirty.filter (· ≠ key)
      held := key :: q.held.filter (· ≠ key) })

def tryGet (q : WorkQueue) (now : Instant) : Option PromotionKey × WorkQueue := (q.ripen now).take

/-- Takes back a key, and readies it if it was asked for meanwhile. -/
def done (q : WorkQueue) (key : PromotionKey) : WorkQueue :=
  let q := { q with held := q.held.filter (· ≠ key) }
  if q.dirty.contains key then { q with ready := q.ready ++ [key] } else q

def close (q : WorkQueue) : WorkQueue := { q with closed := true }

def forget (q : WorkQueue) (key : PromotionKey) : WorkQueue :=
  { q with backoff := q.backoff.forget key }

def requeues (q : WorkQueue) (key : PromotionKey) : UInt32 := q.backoff.failures key

def nextDue? (q : WorkQueue) : Option Instant := q.delayed.head?.map (·.due)

inductive Got where
  | key (key : PromotionKey)
  /-- The queue is closed and nothing is ready. -/
  | drained
  | timeout
deriving DecidableEq, Repr

/-- Waits until a key is ready or the deadline has come. Each round passes a due time, so there are
no more rounds than delayed requests. -/
def waitUntil (deadline : Instant) : Nat → WorkQueue → Instant → Got × WorkQueue × Instant
  | 0, q, now => (.timeout, q, max now deadline)
  | rounds + 1, q, now =>
    match q.tryGet now with
    | (some key, q) => (.key key, q, now)
    | (none, q) =>
      if q.closed then (.drained, q, now)
      else
        match q.nextDue? with
        | some due =>
          if due ≤ deadline then waitUntil deadline rounds q due
          else (.timeout, q, max now deadline)
        | none => (.timeout, q, max now deadline)

/-- Waits for a key, from `now` for at most `patience`. The time when the wait ends comes along. -/
def get (q : WorkQueue) (now : Instant) (patience : Duration) : Got × WorkQueue × Instant :=
  waitUntil (now + patience.nanos) (q.delayed.length + 2) q now

end WorkQueue

end StageGate
