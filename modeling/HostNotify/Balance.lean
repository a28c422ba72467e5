import HostNotify.Calls
import HostNotify.Takeover

/-!
# Every call respects the ledger

With one account for each call the accounts of all threads stay true in every run.
-/

namespace HostNotify

open Bits Interleaving

variable {k : Setting} {b : Board} {m : Hand} {c : CoreCall} {v : Estate} {call : Call}

/-- A transfer on the auxiliary port begins in the stance of a transfer. -/
theorem Hand.takes_transfer : ({ Hand.empty .aux with window := true } : Hand).Takes k .transfer where
  role := rfl
  asf := rfl
  notify := rfl
  held := rfl
  active := rfl
  window := rfl
  ok := rfl
  pm := rfl
  imc := rfl
  known := trivial
  square _ _ h := nomatch h

/-- The IRQ thread begins in its stance. -/
theorem Hand.takes_interrupt : ({ Hand.empty .thread with active := true } : Hand).Takes k .interrupt where
  role := rfl
  asf := rfl
  notify := rfl
  held := rfl
  active := rfl
  window := rfl
  ok := rfl
  pm := rfl
  imc := rfl
  known := trivial
  square _ _ h := nomatch h

/-- A callback begins knowing only that `pending` is clear while the device is unbound. -/
theorem Hand.takes_calling (c : CoreCall) (v : Estate) :
    (Hand.calling c v).Takes k (.calling c (v.begin c) (stillUnbound v)) where
  role := rfl
  asf := rfl
  notify := rfl
  held := rfl
  active := rfl
  window := rfl
  ok := rfl
  pm := rfl
  imc := rfl
  known hb := by simp [Hand.calling, hb]
  square _ _ h := nomatch h

/-- The end of a transfer keeps to the rules. -/
theorem transferDone_obeys :
    Obeys (ledger k b) (Hand.Takes k .transfer) (perform .transferDone) fun _ => Resting := by
  refine .perform fun m hm => ⟨⟨hm.free rfl rfl rfl, hm.role⟩, ?_⟩
  rintro r m' rfl
  exact ⟨⟨rfl, rfl, rfl, rfl, rfl⟩, Or.inr rfl⟩

/-- The end of the IRQ thread keeps to the rules. -/
theorem irqThreadDone_obeys :
    Obeys (ledger k b) (fun m => m.Free ∧ m.role = .thread) (perform .irqThreadDone) fun _ => Resting := by
  refine .perform fun m hm => ⟨hm, ?_⟩
  rintro r m' rfl
  exact ⟨⟨rfl, rfl, rfl, rfl, rfl⟩, Or.inr rfl⟩

/-- A callback begins in a state of rest. -/
theorem Estate.Rest.begin (h : v.Rest) (hc : c ≠ .enable) : (v.begin c).Rest := by
  cases c with
  | enable => exact absurd rfl hc
  | _ => exact { h with }

/-- Every device callback respects the ledger. -/
theorem core_follows (h : v.Lawful b) (hrest : v.Rest) (hmay : v.MayBegin c) :
    Follows (ledger k b) (fun _ => Resting) ((Call.core c).body b) (Hand.calling c v) := by
  have htakes := Hand.takes_calling (k := k) c v
  have hbegun := h.begin hmay
  cases c with
  | enable => exact enable_obeys h hrest hmay _ htakes.forget
  | addAdapter =>
    exact addAdapter_obeys hbegun (hrest.begin nofun) hmay.1 hmay.2.2.1 hmay.2.2.2 _ htakes.forget
  | start => exact start_obeys hbegun (hrest.begin nofun) hmay.1 hmay.2.2 rfl _ htakes.forget
  | stop => exact stop_obeys hbegun (hrest.begin nofun) hmay.1 _ htakes.forget
  | adapRemove =>
    obtain ⟨hbound, _, hadapter, hhalted⟩ := hmay
    obtain ⟨hreq, hdeliver⟩ := h.halted hhalted
    exact adapRemove_obeys hbegun (hrest.begin nofun) hbound hadapter hreq hdeliver rfl _ htakes.forget
  | disable => exact disable_obeys hbegun (hrest.begin nofun) hmay rfl _ htakes.forget
  | suspend => exact suspend_obeys hbegun (hrest.begin nofun) _ htakes
  | resume => exact resume_obeys hbegun (hrest.begin nofun) hmay.2 _ htakes

/-- Every call respects the ledger, from any account with which it may begin. -/
theorem body_follows (call : Call) (m : Hand) (h : Starts b call m) :
    Follows (ledger k b) (fun _ => Resting) (call.body b) m := by
  cases call with
  | transfer x =>
    obtain ⟨hx, rfl⟩ := h
    exact Obeys.bind (piix4AccessAsf_obeys hx) (fun _ => transferDone_obeys) _ Hand.takes_transfer
  | plainTransfer x =>
    obtain ⟨hx, rfl⟩ := h
    exact Obeys.bind (access_obeys rfl rfl hx) (fun _ => transferDone_obeys) _ Hand.takes_transfer
  | mainTransfer a x =>
    obtain ⟨⟨⟨ha, hx⟩, _, hport⟩, rfl⟩ := h
    have hidle : (Hand.empty .main).Idles := ⟨rfl, rfl, rfl, rfl, rfl, rfl⟩
    exact Obeys.bind (piix4AccessSb800_obeys ha hx hport) (fun _ => .ret fun m hm => ⟨hm.2, Or.inl hm.1⟩) _
      hidle
  | irqThread =>
    obtain rfl : m = { Hand.empty .thread with active := true } := h
    exact Obeys.bind piix4AsfIrqThread_obeys (fun _ => irqThreadDone_obeys) _ Hand.takes_interrupt
  | core c =>
    obtain ⟨v, hlawful, hrest, hmay, rfl⟩ := h
    exact core_follows hlawful hrest hmay

/-- In every reachable pool each thread has a true account that its program respects. -/
theorem covers {p : Pool St Op Op.Ans Call} (h : p.Reachable (machine k b) (Unbound k)) :
    (custody k b).Covers p :=
  Custody.covers_reachable (custody k b) (fun _ _ => trivial) (fun _ => unbound_kept)
    body_follows h

/-- The account of a callback that is about to return. -/
theorem returning {p : Pool St Op Op.Ans Call} (h : p.Reachable (machine k b) (Unbound k)) {i : ℕ}
    (hdone : p.next i = some (call, .coreDone c)) :
    ∃ m, Tie k b i m p.shared ∧ m.role = .core c (p.shared.estate b) ∧ m.Free ∧
      ((p.shared.estate b).after c).Rest ∧ ((p.shared.estate b).after c).Lawful b ∧
      (((p.shared.estate b).after c).bound = false → m.still = true) ∧
      (c = .disable → p.shared.granted = true → p.shared.life.asleep = false →
        m.Restored (p.shared.estate b)) := by
  obtain ⟨m, _, htie, hfree, c', v, hrole, rfl, hrest, hlawful, hstill, hrestored⟩ :=
    (covers h).next_allowed hdone
  obtain rfl := htie.estate _ v hrole
  exact ⟨m, htie, hrole, hfree, hrest, hlawful, hstill, hrestored⟩

end HostNotify
