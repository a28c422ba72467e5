import HostNotify.Balance
import HostNotify.Listening

/-!
# Delivery is fenced

Addresses leave the driver only while `piix4_asf_deliver_ok` is set under its mutex, and it is
not set between a stop and the next start.
-/

namespace HostNotify

open Bits Interleaving

variable {k : Setting} {b : Board} {p : Pool St Op Op.Ans Call} {i : ℕ} {c : Call} {o : Op}

/-- The thread is about to call `i2c_handle_smbus_host_notify`, or to return from it. -/
def Op.Delivers : Op → Prop
  | .i2cHandleSmbusHostNotify _ | .mark .notified => True
  | _ => False

/-- Whoever may deliver has seen the permission, and holds the mutex it is guarded by. -/
theorem Hand.allows_delivers {m : Hand} (h : m.allows k b o) (ho : o.Delivers) : m.ok = true := by
  cases o with
  | i2cHandleSmbusHostNotify a => exact h
  | mark mk =>
    cases mk with
    | notified => exact h
    | _ => exact absurd ho id
  | _ => exact absurd ho id

/-- Whenever a call of `i2c_handle_smbus_host_notify` begins or is in progress, no stop has
returned since the latest start, and the auxiliary adapter is set and registered. -/
theorem delivery_fenced (h : p.Reachable (machine k b) (Unbound k)) (hnext : p.next i = some (c, o))
    (ho : o.Delivers) :
    p.shared.ghost.fenced = false ∧ p.shared.auxAdapter = true ∧ p.shared.life.registered = true := by
  obtain ⟨m, _, htie, hallow⟩ := (covers h).next_allowed hnext
  have hok := (htie.ok (Hand.allows_delivers hallow ho)).1
  obtain ⟨_, hadapter, hreg, hfenced⟩ := (covers h).inv.lawful.delivering hok
  exact ⟨hfenced, hadapter, hreg⟩

/-- Thread `i` is about to pass an address on. -/
def deliversNext (p : Pool St Op Op.Ans Call) (i : ℕ) : Bool :=
  match p.next i with
  | some (_, .i2cHandleSmbusHostNotify _) => true
  | _ => false

/-- The thread is about to deliver. -/
theorem deliversNext_some (h : deliversNext p i = true) : ∃ c o, p.next i = some (c, o) ∧ o.Delivers := by
  unfold deliversNext at h
  split at h
  · next c a hi => exact ⟨c, _, hi, trivial⟩
  · cases h

/-- A message arrives, and the IRQ thread collects it. -/
def collected : List (Action Call Event) :=
  bringUp ++ [arrival, .event .hardIrq, .call .irqThread] ++ advance 3 27

/-- The message is about to be delivered, and delivery is not fenced off. -/
theorem delivery_fenced_collected :
    ∃ p, outcome Setting.all collected = some p ∧ p.shared.ghost.fenced = false := by
  obtain ⟨p, hp, hnext⟩ := exists_outcome Setting.all collected (deliversNext · 3) (by decide +kernel)
  obtain ⟨c, o, hi, ho⟩ := deliversNext_some hnext
  exact ⟨p, hp, (delivery_fenced (outcome_reachable hp) hi ho).1⟩

end HostNotify
