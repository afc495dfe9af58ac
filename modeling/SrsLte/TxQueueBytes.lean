import Mathlib.Data.List.Basic
import SrsLte.EventRun
import SrsLte.Word

/-!
# The bytes in an RLC transmission queue

`rlc_tx_queue` counts the bytes of the SDUs in a `block_queue` with callbacks at every push and pop.
A call that blocks happens when it is let through. A queue is `none` once a null pointer has been
followed.
-/

namespace SrsLte

open EventRun (Along forall_prefix_iff along_congr)
open Word (toInt32)

/-- `queue` has the `N_bytes` of the SDUs, the oldest first. -/
structure TxQueue where
  capacity : ℤ := 128
  queue : List ℕ := []
  unreadBytes : ℕ := 0

/-- `try_read` takes a pointer, which can be null. -/
inductive QueueCall
  | write (nBytes : ℕ)
  | tryWrite (nBytes : ℕ)
  | read
  | tryRead (msg : Bool)
  | clear
  | resize (capacity : ℕ)

namespace TxQueue

def checkQueueSpace (q : TxQueue) : Bool :=
  !(decide (0 < q.capacity) && decide (q.capacity.toNat ≤ q.queue.length))

def pushing (q : TxQueue) (nBytes : ℕ) : ℕ := (q.unreadBytes + nBytes) % 2 ^ 32

def popping (q : TxQueue) (nBytes : ℕ) : ℕ :=
  if q.unreadBytes > nBytes then q.unreadBytes - nBytes else 0

/-- `push_`. -/
def push (q : TxQueue) (nBytes : ℕ) : Bool × TxQueue :=
  if q.checkQueueSpace then
    (true, { q with queue := q.queue ++ [nBytes], unreadBytes := q.pushing nBytes })
  else (false, q)

/-- `pop_`, with the SDU that was read. -/
def pop (q : TxQueue) (value : Bool) : Option (Option ℕ × TxQueue) :=
  match q.queue with
  | [] => some (none, q)
  | nBytes :: queue =>
    -- the callback reads the SDU through the pointer of the caller
    if value then some (some nBytes, { q with queue, unreadBytes := q.popping nBytes }) else none

/-- `block_queue::clear`, whose pointer is null: no second `try_pop` succeeds. -/
def clear (q : TxQueue) : Option TxQueue := (q.pop false).map Prod.snd

def sizeBytes (q : TxQueue) : ℕ := q.unreadBytes

def step (s : Option TxQueue) (call : QueueCall) : Option TxQueue :=
  s.bind fun q =>
    match call with
    | .write nBytes | .tryWrite nBytes => some (q.push nBytes).2
    | .read => (q.pop true).map Prod.snd
    | .tryRead msg => (q.pop msg).map Prod.snd
    | .clear => q.clear
    | .resize capacity => some { q with capacity := toInt32 capacity }

def Exact (s : Option TxQueue) : Prop := ∃ q, s = some q ∧ q.sizeBytes = q.queue.sum

/-- The bytes fit in 32 bits, and SDUs are read to somewhere. -/
def Fits : Option TxQueue → QueueCall → Prop
  | some q, .write nBytes => q.checkQueueSpace → q.queue.sum + nBytes < 2 ^ 32
  | some q, .tryWrite nBytes => q.checkQueueSpace → q.queue.sum + nBytes < 2 ^ 32
  | some q, .tryRead false => q.queue = []
  | some q, .clear => q.queue = []
  | _, _ => True

variable {q : TxQueue}

theorem exact_some : Exact (some q) ↔ q.sizeBytes = q.queue.sum := by
  constructor
  · rintro ⟨q', hq', h⟩
    rwa [Option.some.inj hq']
  · exact fun h => ⟨q, rfl, h⟩

theorem exact_push_iff {nBytes : ℕ} (h : q.sizeBytes = q.queue.sum) :
    Exact (some (q.push nBytes).2) ↔ (q.checkQueueSpace → q.queue.sum + nBytes < 2 ^ 32) := by
  rw [exact_some]
  unfold push
  split_ifs with hspace
  · rw [forall_prop_of_true hspace, ← h]
    show (q.unreadBytes + nBytes) % 2 ^ 32 = (q.queue ++ [nBytes]).sum ↔
      q.unreadBytes + nBytes < 2 ^ 32
    rw [List.sum_append, List.sum_singleton, ← h]
    exact ⟨fun heq => heq ▸ Nat.mod_lt _ (by decide), Nat.mod_eq_of_lt⟩
  · exact iff_of_true h fun hspace' => absurd hspace' hspace

theorem exact_pop_true (h : q.sizeBytes = q.queue.sum) :
    Exact ((q.pop true).map Prod.snd) := by
  unfold pop
  cases hqueue : q.queue with
  | nil => exact exact_some.mpr h
  | cons nBytes queue =>
    refine exact_some.mpr ?_
    show q.popping nBytes = queue.sum
    have hsum : q.unreadBytes = nBytes + queue.sum := by
      rw [← List.sum_cons, ← hqueue]
      exact h
    unfold popping
    split_ifs <;> omega

/-- A pop without destination is harmless exactly when there is nothing to pop. -/
theorem exact_pop_false_iff (h : q.sizeBytes = q.queue.sum) :
    Exact ((q.pop false).map Prod.snd) ↔ q.queue = [] := by
  unfold pop
  cases hqueue : q.queue with
  | nil => exact iff_of_true (exact_some.mpr h) rfl
  | cons nBytes queue => exact iff_of_false (fun ⟨_, hq, _⟩ => nomatch hq) (List.cons_ne_nil _ _)

theorem exact_step_iff (s : Option TxQueue) (call : QueueCall) (hs : Exact s) :
    Exact (step s call) ↔ Fits s call := by
  obtain ⟨q, rfl, h⟩ := hs
  cases call with
  | write nBytes => exact exact_push_iff h
  | tryWrite nBytes => exact exact_push_iff h
  | read => exact iff_of_true (exact_pop_true h) trivial
  | tryRead msg =>
    cases msg with
    | false => exact exact_pop_false_iff h
    | true => exact iff_of_true (exact_pop_true h) trivial
  | clear => exact exact_pop_false_iff h
  | resize capacity => exact iff_of_true (exact_some.mpr h) trivial

/-- `size_bytes` is exact all along exactly when every call of the run fits. -/
theorem size_bytes_exact_iff (capacity : ℤ) (calls : List QueueCall) :
    (∀ pre, pre <+: calls → Exact (pre.foldl step (some ⟨capacity, [], 0⟩))) ↔
      Along step Fits (some ⟨capacity, [], 0⟩) calls := by
  have hinit : Exact (some ⟨capacity, [], 0⟩) := ⟨_, rfl, rfl⟩
  rw [forall_prefix_iff, and_iff_right hinit]
  exact along_congr (fun _ _ _ h => h) exact_step_iff hinit

/-- A queue with one SDU is cleared. -/
theorem size_bytes_lost :
    ¬ ∀ (capacity : ℤ) (calls pre : List QueueCall), pre <+: calls →
      Exact (pre.foldl step (some ⟨capacity, [], 0⟩)) := by
  intro h
  obtain ⟨q, hq, -⟩ := h 128 [.write 10, .clear] _ (List.prefix_refl _)
  exact nomatch hq

end TxQueue

end SrsLte
