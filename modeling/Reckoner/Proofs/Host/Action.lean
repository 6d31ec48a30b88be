import Reckoner.Host.Action
import Reckoner.Operator.Apply

/-!
What steps on the host do, one equation for each way in which they are put together.
-/
namespace Reckoner

namespace Action

variable {α β : Type} (host : Host)

@[simp] theorem on_pure (a : α) : (pure a : Action α).on host = (.ok a, host) := rfl

@[simp] theorem on_throw (error : RuntimeError) :
    (throw error : Action α).on host = (.error error, host) := rfl

@[simp] theorem on_bind (action : Action α) (next : α → Action β) :
    (action >>= next).on host =
      match action.on host with
      | (.ok a, host) => (next a).on host
      | (.error error, host) => (.error error, host) := by
  simp only [on, ExceptT.run_bind, StateT.run_bind]
  rcases StateT.run (ExceptT.run action) host with ⟨_ | a, host⟩ <;> rfl

@[simp] theorem on_map (f : α → β) (action : Action α) :
    (f <$> action).on host =
      match action.on host with
      | (.ok a, host) => (.ok (f a), host)
      | (.error error, host) => (.error error, host) := by
  rw [← bind_pure_comp, on_bind]
  rfl

@[simp] theorem on_readSlot (slot : Slot) :
    (readSlot slot).on host = (.ok (slot.read host.heap), host) := rfl

@[simp] theorem on_readCell (cell : Cell) :
    (readCell cell).on host = (.ok (host.heap.read cell), host) := rfl

@[simp] theorem on_assign (cell : Cell) (value : Value) :
    (assign cell value).on host =
      match host.heap.assign cell value with
      | .ok heap => (.ok (), { host with heap := heap })
      | .error error => (.error error, host) := by
  simp only [assign, on_bind]
  change (match host.heap.assign cell value with | .ok heap => _ | .error error => _ : Action Unit).on
    host = _
  split <;> rfl

theorem on_mapM_readSlot (slots : List Slot) :
    (slots.mapM readSlot).on host = (.ok (slots.map (·.read host.heap)), host) := by
  induction slots with
  | nil => rfl
  | cons slot rest ih => simp [List.mapM_cons, ih]

end Action

namespace Operator.Application

@[simp] theorem on_pureResult {α : Type} (result : Except RuntimeError α) (host : Host) :
    (pureResult result).on host = (result, host) := by
  cases result <;> rfl

end Operator.Application

end Reckoner
