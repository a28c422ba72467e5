import HostNotify.Handlers

/-!
# The ports in use

The auxiliary port and the target block share one register block, behind two I/O windows that
are claimed and given back at different times.
-/

namespace HostNotify

open Bits Interleaving

variable {k : Setting} {b : Board} {p : Pool Interrupted Move Move.Ans Party} {s : St} {t i : ℕ} {m : Hand}

/-- A port that the operation touches lies in a window that is held. -/
def Op.Inside (o : Op) (s : St) : Prop :=
  match o with
  | .inb port | .outb _ port => ∃ w ∈ s.windows, Within w port
  | _ => True

/-- Ports that an account lets its thread touch lie in windows that are held. -/
theorem Tie.inside {port : ℕ} (htie : Tie k b t m s) (ho : Orderly k b s) (hmain : m.role ≠ .main)
    (hreach : m.Reaches b port) : ∃ w ∈ s.windows, Within w port := by
  have haux : (s.estate b).auxHeld = true → b.auxWindow ∈ s.windows := of_decide_eq_true
  have hasf : (s.estate b).asfHeld = true → b.asfWindow ∈ s.windows := of_decide_eq_true
  have hshared : (Within b.auxWindow port ∧ m.window = true) ∨
      (Within b.asfWindow port ∧ m.asf = true ∧ m.active = true) → ∃ w ∈ s.windows, Within w port := by
    rintro (⟨hport, hwindow⟩ | ⟨hport, _, hactive⟩)
    · exact ⟨_, haux (ho.lawful.registered (htie.window hwindow).1), hport⟩
    · exact ⟨_, hasf (ho.lawful.active (htie.active hactive).1).1, hport⟩
  unfold Hand.Reaches at hreach
  cases hrole : m.role with
  | idle => simp only [hrole] at hreach
  | main => exact absurd hrole hmain
  | aux =>
    rw [hrole] at hreach
    exact hshared hreach
  | thread =>
    rw [hrole] at hreach
    exact hshared hreach
  | core c v =>
    have hestate := htie.estate c v hrole
    rw [hrole] at hreach
    rcases hreach with ⟨hport, hheld⟩ | ⟨hport, _, hheld⟩
    · exact ⟨_, haux (hestate ▸ hheld), hport⟩
    · exact ⟨_, hasf (hestate ▸ hheld), hport⟩

/-- While the handler's condition is met, each of its stages reaches only into windows that are held. -/
theorem Interrupted.Kept.inside {s : Interrupted} {g : Stage} {o : Op} (hs : s.Kept k b)
    (ht : Interrupted.Tie k b t (.inr g) s) (hallow : (stages b).allows g (.inl o)) : o.Inside s.st := by
  have hasf : g ≠ .gone → b.asfWindow ∈ s.st.windows := fun hg => by
    have hreq := hs.requested (List.ne_nil_of_mem (ht.1 hg))
    have hactive := (hs.orderly.lawful.requested hreq).1
    exact of_decide_eq_true (hs.orderly.lawful.active hactive).1
  have hport : ∀ i, smbiosize ≤ i → i < asfIosize → Within b.asfWindow (i + b.auxSmba) := asfPorts_window b
  cases g with
  | based =>
    cases o with
    | inb port =>
      obtain rfl : port = asfSta b.auxSmba := hallow
      exact ⟨_, hasf (by decide), hport 0x0A (by decide) (by decide)⟩
    | outb v port => exact absurd hallow id
    | _ => exact trivial
  | stray =>
    have haux := hs.window (List.ne_nil_of_mem (ht.2 rfl))
    have hsts : Within b.auxWindow (smbHstSts b.auxSmba) := by
      simp [Within, Board.auxWindow, smbHstSts, smbiosize]
    cases o with
    | inb port =>
      obtain rfl : port = smbHstSts b.auxSmba := hallow
      exact ⟨_, haux, hsts⟩
    | outb v port =>
      obtain rfl : port = smbHstSts b.auxSmba := hallow
      exact ⟨_, haux, hsts⟩
    | _ => exact trivial
  | pending =>
    have hsta := hport 0x0A (by decide) (by decide)
    have hslv := hport 0x15 (by decide) (by decide)
    cases o with
    | inb port =>
      obtain rfl : port = asfSlvEn b.auxSmba := hallow
      exact ⟨_, hasf (by decide), hslv⟩
    | outb v port =>
      rcases (show port = asfSta b.auxSmba ∨ port = asfSlvEn b.auxSmba from hallow) with rfl | rfl
      · exact ⟨_, hasf (by decide), hsta⟩
      · exact ⟨_, hasf (by decide), hslv⟩
    | _ => exact trivial
  | _ => cases o <;> first | exact trivial | exact absurd hallow id

/-! ## Every access -/

/-- Every port that the driver touches for the auxiliary port and the target block lies in a window
it holds at that moment, in each call and in each execution of the hard handler, while no handler
looks for a slave interrupt in vain after the auxiliary port's window has been given back, or has
done so and is on its way to SMBHSTSTS when it is given back. -/
theorem ports_held (hk : k.strayIrq = false)
    (h : p.Reachable (interruptible k b) (Interrupted.Unbound k)) {c : Party} {o : Op}
    (hnext : p.next i = some (c, .inl o)) (hcall : ∀ a x, c ≠ .call (.mainTransfer a x)) :
    o.Inside p.shared.st := by
  have hcovers := Interrupted.covers hk h
  obtain ⟨a, hserves, htie, hallow⟩ := hcovers.next_allowed hnext
  cases a with
  | inr g => exact hcovers.inv.inside htie hallow
  | inl m =>
    cases c with
    | hardIrq => exact absurd hserves id
    | call c =>
      have hmain : m.role ≠ .main := by
        intro hrole
        have hserves : Serves c m.role := hserves
        rw [hrole] at hserves
        cases c with
        | mainTransfer a x => exact hcall a x rfl
        | core c =>
          rcases hserves with ⟨v, hv⟩ | hidle
          · cases hv
          · cases hidle
        | _ => rcases hserves with hv | hv <;> cases hv
      cases o with
      | inb port => exact htie.1.inside hcovers.inv.orderly hmain hallow
      | outb v port => exact htie.1.inside hcovers.inv.orderly hmain hallow
      | _ => exact trivial

namespace Interrupted

/-- Probe claims the block and cannot allocate the adapter; its window is about to go back. -/
def unregistrable : List (Action Party Event) :=
  .call (.call (.core .enable)) :: advance 0 47 ++
    .event (.world { St.loaded.world with allocFails := true }) ::
    .call (.call (.core .addAdapter)) :: advance 1 2

/-- Another device on the line has it fire, and the handler finds no slave interrupt. -/
def astray : List (Action Party Event) := unregistrable ++ .call .hardIrq :: advance 2 2

/-- Thread `i` is a handler about to read SMBHSTSTS. -/
def looksNext (p : Pool Interrupted Move Move.Ans Party) (i : ℕ) : Bool :=
  match p.next i with
  | some (.hardIrq, .inl (.inb port)) => port == smbHstSts Board.described.auxSmba
  | _ => false

/-- The hard handler is about to read SMBHSTSTS. -/
theorem looksNext_some (h : looksNext p i = true) :
    p.next i = some (.hardIrq, .inl (.inb (smbHstSts Board.described.auxSmba))) := by
  unfold looksNext at h
  split at h
  · next port hnext =>
    obtain rfl : port = _ := beq_iff_eq.mp h
    exact hnext
  · cases h

end Interrupted

/-- A handler looks for a completion before the window goes back. -/
theorem ports_held_astray :
    ∃ p, Interrupted.outcome { Setting.all with strayIrq := false } Interrupted.astray = some p ∧
      p.shared.stray = [2] ∧ (Op.inb (smbHstSts Board.described.auxSmba)).Inside p.shared.st := by
  have hrun : (Interrupted.outcome { Setting.all with strayIrq := false } Interrupted.astray).any (fun p =>
      Interrupted.looksNext p 2 && decide (p.shared.stray = [2])) = true := by decide +kernel
  obtain ⟨p, hp, hstate⟩ := (Option.any_eq_true _ _).mp hrun
  rw [Bool.and_eq_true, decide_eq_true_eq] at hstate
  obtain ⟨hnext, hstray⟩ := hstate
  have hinside := ports_held rfl (Interrupted.outcome_reachable hp) (Interrupted.looksNext_some hnext)
    (by intros; intro h; cases h)
  exact ⟨p, hp, hstray, hinside⟩

/-- The port lies in none of the windows. -/
def outside (windows : List (ℕ × ℕ)) (port : ℕ) : Bool :=
  windows.all fun w => decide (port < w.1) || decide (w.1 + w.2 ≤ port)

/-- A port found outside the windows lies in none of them. -/
theorem outside_sound {windows : List (ℕ × ℕ)} {port : ℕ} (h : outside windows port = true) :
    ∀ w ∈ windows, ¬ Within w port := by
  intro w hw hport
  have hout := List.all_eq_true.mp h w hw
  rw [Bool.or_eq_true, decide_eq_true_iff, decide_eq_true_iff] at hout
  obtain ⟨hlo, hhi⟩ := hport
  omega

/-- A handler that has found no slave interrupt reads SMBHSTSTS after the window has gone back. -/
theorem stray_irq_outside : ∃ p : Pool Interrupted Move Move.Ans Party,
    p.Reachable (interruptible Setting.all Board.described) (Interrupted.Unbound Setting.all) ∧
    ∃ o, p.next 2 = some (.hardIrq, .inl o) ∧ ¬ o.Inside p.shared.st := by
  have hrun : (Interrupted.outcome Setting.all (Interrupted.astray ++ Interrupted.advance 1 1)).any (fun p =>
      Interrupted.looksNext p 2 && outside p.shared.st.windows (smbHstSts Board.described.auxSmba)) = true := by
    decide +kernel
  obtain ⟨p, hp, hstate⟩ := (Option.any_eq_true _ _).mp hrun
  rw [Bool.and_eq_true] at hstate
  obtain ⟨hnext, hout⟩ := hstate
  refine ⟨p, Interrupted.outcome_reachable hp, _, Interrupted.looksNext_some hnext, ?_⟩
  rintro ⟨w, hw, hport⟩
  exact outside_sound hout w hw hport

end HostNotify
