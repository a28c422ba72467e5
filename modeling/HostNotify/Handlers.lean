import HostNotify.Balance
import HostNotify.Interleaving.Beside
import HostNotify.Listening

/-!
# The hard handler among the calls

`piix4_asf_irq_handler` takes no lock, and other threads go on while it runs. Here each of its
executions is a thread whose single operations interleave with those of all calls;
`synchronize_hardirq` and `free_irq` wait for the executions in progress.
-/

namespace HostNotify

open Bits Interleaving

/-! ## The machine -/

/-- What runs as a thread. -/
inductive Party where
  | call (c : Call)
  /-- One execution of the hard handler. -/
  | hardIrq

/-- The driver's operations, and the return of the hard handler. -/
abbrev Move := Op ⊕ IrqReturn

/-- Answers of the moves. -/
abbrev Move.Ans : Move → Type := Sum.elim Op.Ans fun _ => Unit

/-- The code of a party. -/
def Party.body (b : Board) : Party → Prog Move Move.Ans Unit
  | .call c => (c.body b).left
  | .hardIrq => piix4AsfIrqHandler.left >>= fun r => Prog.perform (Sum.inr r : Move)

/-- The system with the executions of the hard handler in progress, and those of them that have
found no slave interrupt and are not done with SMBHSTSTS. -/
structure Interrupted where
  st : St
  handling : List ℕ
  stray : List ℕ

/-- The operation waits for the executions of the hard handler in progress. -/
def Op.awaitsHandlers : Op → Bool
  | .synchronizeHardirq | .freeIrq => true
  | _ => false

/-- A read that finds no slave interrupt. -/
def Op.strays (b : Board) : (o : Op) → o.Ans → Bool
  | .inb port, r => decide (port = asfSta b.auxSmba) && decide (r &&& bit asfStaSlvInt = 0)
  | _, _ => false

/-- An access of SMBHSTSTS after which there is no other: it found no completion, or has cleared it. -/
def Op.settles (b : Board) : (o : Op) → o.Ans → Bool
  | .inb port, r => decide (port = smbHstSts b.auxSmba) && decide (r &&& bit asfHstIntr = 0)
  | .outb _ port, _ => decide (port = smbHstSts b.auxSmba)
  | _, _ => false

/-- The operation gives the auxiliary port's window back. -/
def Op.vacates (b : Board) : Op → Bool
  | .releaseRegion start len => decide ((start, len) = b.auxWindow)
  | _ => false

namespace Interrupted

/-- The stray executions after an operation of thread `t`. -/
def strayAfter (b : Board) (t : ℕ) (s : Interrupted) (o : Op) (r : o.Ans) : List ℕ :=
  if t ∈ s.handling ∧ o.strays b r = true then t :: s.stray
  else if o.settles b r = true then s.stray.filter (· ≠ t)
  else s.stray

/-- One move of thread `t`. -/
def exec (b : Board) (t : ℕ) : (o : Move) → Interrupted → Option (Move.Ans o × Interrupted)
  | .inl o, s =>
    if o.awaitsHandlers = true ∧ s.handling ≠ [] then none
    else (HostNotify.exec b t o s.st).map fun r =>
      (r.1, { s with st := r.2, stray := s.strayAfter b t o r.1 })
  | .inr r, s =>
    some ((), { s with
      st := { s.st with irq := { s.st.irq with woken := s.st.irq.woken || r = .wakeThread } }
      handling := s.handling.filter (· ≠ t), stray := s.stray.filter (· ≠ t) })

/-- The handler begins at any time while the line may fire. -/
def enter (k : Setting) (b : Board) : Party → ℕ → Interrupted → Option Interrupted
  | .call c, t, s => (HostNotify.enter k b c t s.st).map fun st => { s with st := st }
  | .hardIrq, t, s =>
    if s.st.irq.requested && !s.st.irq.masked then some { s with handling := t :: s.handling } else none

/-- Everything but the handler. -/
def react (k : Setting) (b : Board) : Event → Interrupted → Option Interrupted
  | .hardIrq, _ => none
  | e, s => (HostNotify.react k b e s.st).map fun st => { s with st := st }

/-- A handler reads the slave's interrupt status with no window over SMBHSTSTS only when the slave
interrupts, and that window is given back only while no handler is on its way to SMBHSTSTS. -/
def guarded (b : Board) : Party → Move → Interrupted → Bool
  | .hardIrq, .inl (.inb port), s =>
    decide (port ≠ asfSta b.auxSmba) || s.st.holdsAux || s.st.hw.sta.getLsbD 6
  | .call _, .inl o, s => !o.vacates b || s.stray.isEmpty
  | _, _, _ => true

/-- Own steps that the setting admits. -/
def admits (k : Setting) (b : Board) : Party → Move → Interrupted → Bool
  | .call c, .inl o, s => k.admits c o s.st && (k.strayIrq || guarded b (.call c) (.inl o) s)
  | c, o, s => k.strayIrq || guarded b c o s

/-- The module has been loaded, and no handler is in progress. -/
structure Unbound (k : Setting) (s : Interrupted) : Prop where
  st : HostNotify.Unbound k s.st
  handling : s.handling = []
  stray : s.stray = []

end Interrupted

/-- The driver with its surroundings, the hard handler being a thread like others. -/
def interruptible (k : Setting) (b : Board) : Machine Interrupted Move Move.Ans Party Event where
  exec := Interrupted.exec b
  body := Party.body b
  enter := Interrupted.enter k b
  react := Interrupted.react k b
  admits := Interrupted.admits k b

variable {k : Setting} {b : Board} {s s' : St} {t u : ℕ}

/-! ## The handler's accounts -/

/-- How far an execution of the handler has got. -/
inductive Stage where
  | entered | based
  /-- It has found no slave interrupt, and goes on to SMBHSTSTS. -/
  | stray
  /-- It has found a slave interrupt. -/
  | pending
  /-- It has only to return. -/
  | done
  | gone
  deriving DecidableEq

/-- What the handler may do, and what it learns. -/
def stages (b : Board) : Ledger Move Move.Ans Stage where
  allows
    | .entered, .inl .asf => True
    | .based, .inl (.inb port) => port = asfSta b.auxSmba
    | .stray, .inl (.inb port) => port = smbHstSts b.auxSmba
    | .stray, .inl (.outb _ port) => port = smbHstSts b.auxSmba
    | .pending, .inl .asf => True
    | .pending, .inl (.inb port) => port = asfSlvEn b.auxSmba
    | .pending, .inl (.outb _ port) => port = asfSta b.auxSmba ∨ port = asfSlvEn b.auxSmba
    | .pending, .inl (.setAsf f) => f = fun a => { a with pending := true }
    | .pending, .inr _ => True
    | .done, .inr _ => True
    | _, _ => False
  moves
    | .entered, .inl .asf, a, g => (show Piix4Asf from a).smba = b.auxSmba ∧ g = .based
    | .based, .inl (.inb _), x, g =>
      g = if (show Byte from x) &&& bit asfStaSlvInt = 0 then .stray else .pending
    | .stray, .inl (.inb _), x, g =>
      g = if (show Byte from x) &&& bit asfHstIntr = 0 then .done else .stray
    | .stray, .inl (.outb _ _), _, g => g = .done
    | .pending, .inl _, _, g => g = .pending
    | _, .inr _, _, g => g = .gone
    | _, _, _, _ => False

/-- The handler keeps to these stages. -/
theorem handler_follows (b : Board) :
    Follows (stages b) (fun _ g => g = .done ∨ g = .pending) (Prog.left piix4AsfIrqHandler) .entered := by
  refine ⟨trivial, fun (a : Piix4Asf) g hg => ?_⟩
  obtain ⟨hbase, rfl⟩ := hg
  refine ⟨congrArg asfSta hbase, fun (sta : Byte) g hg => ?_⟩
  obtain rfl : g = _ := hg
  dsimp only [Prog.bind]
  rw [hbase]
  by_cases hclear : sta &&& bit asfStaSlvInt = 0
  · rw [if_pos hclear, if_pos hclear]
    refine ⟨rfl, fun (sts : Byte) g hg => ?_⟩
    obtain rfl : g = _ := hg
    dsimp only [Prog.bind]
    by_cases hnone : sts &&& bit asfHstIntr = 0
    · rw [if_pos hnone, if_pos hnone]
      exact Or.inl rfl
    · rw [if_neg hnone, if_neg hnone]
      exact ⟨rfl, fun _ g hg => Or.inl hg⟩
  · rw [if_neg hclear, if_neg hclear]
    refine ⟨Or.inl rfl, fun _ g hg => ?_⟩
    obtain rfl : g = _ := hg
    refine ⟨trivial, fun (a' : Piix4Asf) g hg => ?_⟩
    obtain rfl : g = _ := hg
    dsimp only [Prog.bind]
    cases a'.listening with
    | true => exact ⟨rfl, fun _ g hg => Or.inr hg⟩
    | false =>
      refine ⟨rfl, fun _ g hg => ?_⟩
      obtain rfl : g = _ := hg
      exact ⟨Or.inr rfl, fun _ g hg => Or.inr hg⟩

/-- An execution of the handler from its beginning to its return. -/
theorem hardIrq_follows (b : Board) :
    Follows (stages b) (fun _ _ => True) (Party.hardIrq.body b) .entered := by
  refine (handler_follows b).bind fun r g hg => ⟨?_, fun _ _ _ => trivial⟩
  rcases hg with rfl | rfl <;> exact trivial

/-! ## What a step does to the line and the window -/

/-- The IRQ stays requested, and the auxiliary port's window held. -/
structure Retains (b : Board) (s s' : St) : Prop where
  requested : s.irq.requested = true → s'.irq.requested = true
  window : b.auxWindow ∈ s.windows → b.auxWindow ∈ s'.windows

/-- What neither requests the IRQ nor assigns windows retains them. -/
theorem Retains.of_eq (hrequested : s'.irq.requested = s.irq.requested) (hwindows : s'.windows = s.windows) :
    Retains b s s' :=
  ⟨hrequested.trans, fun hw => by rwa [hwindows]⟩

/-- A port read retains the windows. -/
theorem Retains.portRead (b : Board) (s : St) (port : ℕ) : Retains b s (s.portRead b port).2 := by
  unfold St.portRead
  split <;> exact .of_eq rfl rfl

/-- A port write retains the windows. -/
theorem Retains.portWrite (b : Board) (t : ℕ) (s : St) (v : Byte) (port : ℕ) :
    Retains b s (s.portWrite b t v port) := by
  unfold St.portWrite
  split <;> exact .of_eq rfl rfl

/-- Only `free_irq` ends the request, and only `release_region` gives a window back. -/
theorem exec_retains {o : Op} {r : o.Ans} (he : exec b t o s = some (r, s')) :
    (o ≠ .freeIrq → s.irq.requested = true → s'.irq.requested = true) ∧
      (o.vacates b = false → b.auxWindow ∈ s.windows → b.auxWindow ∈ s'.windows) := by
  have hboth : ∀ s₁, Retains b s s₁ →
      (o ≠ .freeIrq → s.irq.requested = true → s₁.irq.requested = true) ∧
        (o.vacates b = false → b.auxWindow ∈ s.windows → b.auxWindow ∈ s₁.windows) :=
    fun _ h => ⟨fun _ => h.requested, fun _ => h.window⟩
  cases o with
  | freeIrq =>
    simp only [exec] at he
    split at he
    · cases he
    · obtain rfl := congrArg Prod.snd (Option.some.inj he)
      exact ⟨fun hne => absurd rfl hne, fun _ => id⟩
  | inb port =>
    obtain rfl : (s.portRead b port).2 = s' := congrArg Prod.snd (Option.some.inj he)
    exact hboth _ (.portRead b s port)
  | outb v port =>
    obtain rfl : s.portWrite b t v port = s' := congrArg Prod.snd (Option.some.inj he)
    exact hboth _ (.portWrite b t s v port)
  | releaseRegion start len =>
    obtain rfl := congrArg Prod.snd (Option.some.inj he)
    refine ⟨fun _ => id, fun hkept hw => List.mem_filter.mpr ⟨hw, decide_eq_true fun heq => ?_⟩⟩
    exact absurd heq.symm (of_decide_eq_false hkept)
  | requestRegion start len =>
    simp only [exec] at he
    split at he
    · obtain rfl := congrArg Prod.snd (Option.some.inj he)
      exact hboth _ (.of_eq rfl rfl)
    · obtain rfl := congrArg Prod.snd (Option.some.inj he)
      exact ⟨fun _ => id, fun _ => List.mem_cons_of_mem _⟩
  | requestThreadedIrq =>
    obtain rfl := congrArg Prod.snd (Option.some.inj he)
    exact ⟨fun _ hreq => by simp only [hreq, Bool.true_or], fun _ => id⟩
  | lock l =>
    simp only [exec] at he
    split at he
    · obtain rfl := congrArg Prod.snd (Option.some.inj he)
      cases l <;> exact hboth _ (.of_eq rfl rfl)
    · cases he
  | unlock l =>
    obtain rfl := congrArg Prod.snd (Option.some.inj he)
    cases l <;> exact hboth _ (.of_eq rfl rfl)
  | requestMemRegionMuxed | requestMuxedRegion | i2cDelAdapter =>
    simp only [exec] at he
    split at he
    all_goals try split at he
    all_goals first
      | (obtain rfl := congrArg Prod.snd (Option.some.inj he); exact hboth _ (.of_eq rfl rfl))
      | cases he
  | mark mk =>
    obtain rfl := congrArg Prod.snd (Option.some.inj he)
    cases mk <;> exact hboth _ (.of_eq rfl rfl)
  | _ =>
    obtain rfl := congrArg Prod.snd (Option.some.inj he)
    exact hboth _ (.of_eq rfl rfl)

/-- Nothing that happens around the driver ends the request or gives a window up. -/
theorem react_retains {e : Event} (he : react k b e s = some s') (hirq : e ≠ .hardIrq) :
    Retains b s s' := by
  cases e with
  | hardIrq => exact absurd rfl hirq
  | _ =>
    simp only [react, Option.ite_none_right_eq_some, Option.some.injEq] at he
    obtain ⟨_, rfl⟩ := he
    exact .of_eq rfl rfl

/-- A call that begins neither ends the request nor gives a window up. -/
theorem enter_retains {c : Call} (he : enter k b c t s = some s') : Retains b s s' := by
  cases c <;>
  · simp only [enter, Option.ite_none_right_eq_some, Option.some.injEq] at he
    obtain ⟨_, rfl⟩ := he
    exact .of_eq rfl rfl

/-- What the handler does in any of its stages falsifies no account. -/
theorem stage_kept {g : Stage} {o : Op} {r : o.Ans} (ho : Orderly k b s) (hreq : s.irq.requested = true)
    (hallow : (stages b).allows g (.inl o)) (he : exec b t o s = some (r, s')) :
    Orderly k b s' ∧ (∀ u, Apart k b u s s') ∧ Retains b s s' := by
  have hactive := (ho.lawful.requested hreq).1
  have hlevel : ∀ s₁, Level b s s₁ → Retains b s s₁ →
      Orderly k b s₁ ∧ (∀ u, Apart k b u s s₁) ∧ Retains b s s₁ :=
    fun s₁ h hretains => ⟨h.orderly ho, h.apart_claimed hactive, hretains⟩
  cases o with
  | asf =>
    obtain rfl := congrArg Prod.snd (Option.some.inj he)
    exact hlevel _ (.refl b _) (.of_eq rfl rfl)
  | inb port =>
    obtain rfl : (s.portRead b port).2 = s' := congrArg Prod.snd (Option.some.inj he)
    exact hlevel _ (alike_portRead b s port).toLevel (.portRead b s port)
  | outb v port =>
    obtain rfl : s.portWrite b t v port = s' := congrArg Prod.snd (Option.some.inj he)
    exact hlevel _ (level_portWrite b t s v port) (.portWrite b t s v port)
  | setAsf f =>
    obtain rfl : f = fun a => { a with pending := true } := by
      cases g <;> first | exact hallow | exact absurd hallow id
    obtain rfl := congrArg Prod.snd (Option.some.inj he)
    have hbound : s.life.owner = none → s.life.bound ≠ false := fun hnone hb => by
      have hloaded := congrArg Piix4Asf.active ((ho.rest hnone).1.fresh hb)
      exact absurd (hloaded.symm.trans hactive) (by decide)
    exact ⟨{ ho with rest := fun hnone => ⟨(ho.rest hnone).1, fun hb => absurd hb (hbound hnone)⟩ },
      fun u => { Apart.refl k b u s with
        shows := fun _ hclear _ => absurd (hclear.symm.trans hactive) (by decide)
        still := fun _ hstill => absurd (hstill.requested.symm.trans hreq) (by decide) },
      .of_eq rfl rfl⟩
  | _ => cases g <;> exact absurd hallow id

/-- The return of the handler falsifies no account. -/
theorem return_kept (woken : Bool) (ho : Orderly k b s) (hreq : s.irq.requested = true) :
    Orderly k b { s with irq := { s.irq with woken := woken } } ∧
      (∀ u, Apart k b u s { s with irq := { s.irq with woken := woken } }) ∧
      Retains b s { s with irq := { s.irq with woken := woken } } := by
  exact ⟨{ ho with masked := fun _ => hreq }, fun u => { Apart.refl k b u s with }, .of_eq rfl rfl⟩

/-! ## The accounts of both kinds -/

namespace Interrupted

/-- What holds in every state in which the handler keeps to the windows. -/
structure Kept (k : Setting) (b : Board) (s : Interrupted) : Prop where
  orderly : Orderly k b s.st
  requested : s.handling ≠ [] → s.st.irq.requested = true
  stray : ∀ u ∈ s.stray, u ∈ s.handling
  window : s.stray ≠ [] → b.auxWindow ∈ s.st.windows

/-- The account of thread `u` is true. -/
def Tie (k : Setting) (b : Board) (u : ℕ) : Hand ⊕ Stage → Interrupted → Prop
  | .inl m, s => HostNotify.Tie k b u m s.st ∧ u ∉ s.handling
  | .inr g, s => (g ≠ .gone → u ∈ s.handling) ∧ (g = .stray → u ∈ s.stray)

/-- The accounts a party may begin with. -/
def Starts (b : Board) : Party → Hand ⊕ Stage → Prop
  | .call c, .inl m => HostNotify.Starts b c m
  | .hardIrq, .inr g => g = .entered
  | _, _ => False

/-- The accounts a party may have. -/
def Serves : Party → Hand ⊕ Stage → Prop
  | .call c, .inl m => HostNotify.Serves c m.role
  | .hardIrq, .inr _ => True
  | _, _ => False

/-- The accounts a party may return with. -/
def Resting : Hand ⊕ Stage → Prop
  | .inl m => HostNotify.Resting m
  | .inr _ => True

variable {s s' : Interrupted} {m : Hand} {g : Stage}

/-- What leaves both lists alone. -/
theorem Kept.of_st {st : St} (h : Kept k b s) (ho : Orderly k b st) (hr : Retains b s.st st) :
    Kept k b { s with st := st } where
  orderly := ho
  requested hne := hr.requested (h.requested hne)
  stray := h.stray
  window hne := hr.window (h.window hne)

/-- An account stays true of what others leave alone. -/
theorem Tie.of_st {st : St} {a : Hand ⊕ Stage} (h : Tie k b u a s) (ha : Apart k b u s.st st) :
    Tie k b u a { s with st := st } := by
  cases a with
  | inl m => exact ⟨h.1.apart ha, h.2⟩
  | inr g => exact h

/-- Only a handler that finds no slave interrupt goes astray. -/
theorem mem_strayAfter {o : Op} {r : o.Ans} (hu : u ∈ s.strayAfter b t o r) :
    u ∈ s.stray ∨ (u = t ∧ t ∈ s.handling ∧ o.strays b r = true) := by
  unfold strayAfter at hu
  split at hu
  · next hstrays => exact (List.mem_cons.mp hu).symm.imp_right fun heq => ⟨heq, hstrays⟩
  · split at hu
    · exact Or.inl (List.mem_of_mem_filter hu)
    · exact Or.inl hu

/-- What thread `t` does moves no other thread from the stray ones. -/
theorem strayAfter_mem {o : Op} (r : o.Ans) (hu : u ∈ s.stray) (hne : u ≠ t) : u ∈ s.strayAfter b t o r := by
  unfold strayAfter
  split
  · exact List.mem_cons_of_mem _ hu
  · split
    · exact List.mem_filter.mpr ⟨hu, decide_eq_true hne⟩
    · exact hu

/-- An operation of the driver's own threads. -/
theorem call_kept {c : Call} {o : Op} {r : o.Ans} (hk : k.strayIrq = false) (hs : Kept k b s)
    (ht : Tie k b t (.inl m) s) (hallow : m.allows k b o) (hadm : admits k b (.call c) (.inl o) s = true)
    (he : exec b t (.inl o) s = some (r, s')) :
    Kept k b s' ∧ (∃ m', m.moves k b o r m' ∧ Tie k b t (.inl m') s') ∧
      ∀ u a, u ≠ t → Tie k b u a s → Tie k b u a s' := by
  simp only [exec] at he
  split at he
  · cases he
  next hfree =>
  obtain ⟨⟨x, st⟩, hexec, heq⟩ := Option.map_eq_some_iff.mp he
  obtain ⟨rfl, rfl⟩ := Prod.mk.inj heq
  obtain ⟨ho, ⟨m', hmove, htie⟩, hothers⟩ := step_kept hs.orderly ht.1 hallow hexec
  obtain ⟨hrequested, hwindow⟩ := exec_retains (b := b) hexec
  have hstray : ∀ u ∈ s.strayAfter b t o x, u ∈ s.stray := fun u hu =>
    (mem_strayAfter hu).resolve_right fun h => ht.2 h.2.1
  simp only [admits, guarded, hk, Bool.false_or, Bool.and_eq_true, Bool.or_eq_true, Bool.not_eq_true',
    List.isEmpty_iff] at hadm
  refine ⟨⟨ho, fun hne => hrequested (fun ho => ?_) (hs.requested hne), fun u hu => hs.stray u (hstray u hu),
    fun hne => ?_⟩, ⟨m', hmove, htie, ht.2⟩, fun u a hu ha => ?_⟩
  · exact hfree ⟨ho ▸ rfl, hne⟩
  · obtain ⟨u, hu⟩ := List.exists_mem_of_ne_nil _ hne
    have hold : s.stray ≠ [] := List.ne_nil_of_mem (hstray u hu)
    exact hwindow (hadm.2.resolve_right hold) (hs.window hold)
  · cases a with
    | inl n => exact ⟨ha.1.apart (hothers u hu), ha.2⟩
    | inr g => exact ⟨ha.1, fun hg => strayAfter_mem x (ha.2 hg) hu⟩

/-- A handler that goes astray does so while the window over SMBHSTSTS is held. -/
theorem stray_window {o : Op} {r : o.Ans} {st : St} (hk : k.strayIrq = false) (ho : Orderly k b s.st)
    (hadm : admits k b .hardIrq (.inl o) s = true) (he : HostNotify.exec b t o s.st = some (r, st))
    (hstrays : o.strays b r = true) : b.auxWindow ∈ s.st.windows := by
  cases o with
  | inb port =>
    simp only [Op.strays, Bool.and_eq_true, decide_eq_true_eq] at hstrays
    obtain ⟨rfl, hclear⟩ := hstrays
    have hread : s.st.portRead b (asfSta b.auxSmba) = (r, st) := Option.some.inj he
    rw [St.portRead_reg s.st (decode_asfSta _)] at hread
    obtain rfl : s.st.hw.sta = r := congrArg Prod.fst hread
    have hquiet : s.st.hw.sta.getLsbD 6 = false := by
      simpa [asfStaSlvInt] using hclear
    simp only [admits, guarded, hk, Bool.false_or, hquiet, Bool.or_false, ne_eq, not_true_eq_false,
      decide_false] at hadm
    rw [holdsAux_estate ho] at hadm
    exact of_decide_eq_true hadm
  | _ => exact absurd hstrays (by simp [Op.strays])

/-- An operation of the handler takes it to the next stage. -/
theorem stage_account {o : Op} {r : o.Ans} {st : St} (ho : Orderly k b s.st) (ht : t ∈ s.handling)
    (hreq : s.st.irq.requested = true) (hstray : g = .stray → t ∈ s.stray)
    (hallow : (stages b).allows g (.inl o)) (he : HostNotify.exec b t o s.st = some (r, st)) :
    ∃ g', (stages b).moves g (.inl o) r g' ∧ (g' = .stray → t ∈ s.strayAfter b t o r) := by
  cases g with
  | entered =>
    cases o with
    | asf =>
      obtain rfl := congrArg Prod.fst (Option.some.inj he)
      exact ⟨.based, ⟨(ho.lawful.claimed (ho.lawful.requested hreq).1).1, rfl⟩, nofun⟩
    | _ => exact absurd hallow id
  | based =>
    cases o with
    | inb port =>
      obtain rfl : port = asfSta b.auxSmba := hallow
      refine ⟨_, rfl, fun hg => ?_⟩
      split at hg
      · next hclear =>
        have hstrays : (Op.inb (asfSta b.auxSmba)).strays b r = true := by
          simp [Op.strays, hclear]
        rw [strayAfter, if_pos ⟨ht, hstrays⟩]
        exact List.mem_cons_self
      · cases hg
    | _ => exact absurd hallow id
  | stray =>
    cases o with
    | inb port =>
      refine ⟨_, rfl, fun hg => ?_⟩
      split at hg
      · cases hg
      · next hset =>
        unfold strayAfter
        split
        · exact List.mem_cons_self
        · have hbusy : (Op.inb port).settles b r = false := by
            rw [Op.settles, decide_eq_false hset, Bool.and_false]
          rw [hbusy]
          exact hstray rfl
    | outb v port => exact ⟨.done, rfl, nofun⟩
    | _ => exact absurd hallow id
  | pending => cases o <;> exact ⟨.pending, rfl, nofun⟩
  | done => cases o <;> exact absurd hallow id
  | gone => cases o <;> exact absurd hallow id

/-- A move of the handler keeps the accounts. -/
theorem stage_move_kept {o : Move} {r : o.Ans} (hk : k.strayIrq = false) (hs : Kept k b s)
    (ht : Tie k b t (.inr g) s) (hallow : (stages b).allows g o) (hadm : admits k b .hardIrq o s = true)
    (he : exec b t o s = some (r, s')) :
    Kept k b s' ∧ (∃ g', (stages b).moves g o r g' ∧ Tie k b t (.inr g') s') ∧
      ∀ u a, u ≠ t → Tie k b u a s → Tie k b u a s' := by
  have hhandling : t ∈ s.handling := by
    refine ht.1 fun hgone => ?_
    subst hgone
    cases o with
    | inl o => cases o <;> exact absurd hallow id
    | inr r => exact absurd hallow id
  have hreq := hs.requested (List.ne_nil_of_mem hhandling)
  cases o with
  | inl o =>
    simp only [exec] at he
    split at he
    · cases he
    obtain ⟨⟨x, st⟩, hexec, heq⟩ := Option.map_eq_some_iff.mp he
    obtain ⟨rfl, rfl⟩ := Prod.mk.inj heq
    obtain ⟨ho, hapart, hretains⟩ := stage_kept hs.orderly hreq hallow hexec
    refine ⟨⟨ho, fun hne => hretains.requested (hs.requested hne), fun u hu => ?_, fun hne => ?_⟩, ?_,
      fun u a hu ha => ?_⟩
    · rcases mem_strayAfter hu with hold | ⟨rfl, _, _⟩
      · exact hs.stray u hold
      · exact hhandling
    · obtain ⟨u, hu⟩ := List.exists_mem_of_ne_nil _ hne
      rcases mem_strayAfter hu with hold | ⟨_, _, hstrays⟩
      · exact hretains.window (hs.window (List.ne_nil_of_mem hold))
      · exact hretains.window (stray_window hk hs.orderly hadm hexec hstrays)
    · obtain ⟨g', hmove, hstray⟩ := stage_account hs.orderly hhandling hreq ht.2 hallow hexec
      exact ⟨g', hmove, fun _ => hhandling, hstray⟩
    · cases a with
      | inl n => exact ⟨ha.1.apart (hapart u), ha.2⟩
      | inr g => exact ⟨ha.1, fun hg => strayAfter_mem x (ha.2 hg) hu⟩
  | inr ret =>
    obtain rfl := congrArg Prod.snd (Option.some.inj he)
    obtain ⟨ho, hapart, hretains⟩ :=
      return_kept (s.st.irq.woken || decide (ret = .wakeThread)) hs.orderly hreq
    have hother : ∀ {us : List ℕ} {u : ℕ}, u ∈ us → u ≠ t → u ∈ us.filter (· ≠ t) :=
      fun hu hne => List.mem_filter.mpr ⟨hu, decide_eq_true hne⟩
    refine ⟨⟨ho, fun _ => hreq, fun u hu => ?_, fun hne => ?_⟩, ⟨.gone, ?_, nofun, nofun⟩, fun u a hu ha => ?_⟩
    · obtain ⟨hold, hne⟩ := List.mem_filter.mp hu
      exact hother (hs.stray u hold) (of_decide_eq_true hne)
    · obtain ⟨u, hu⟩ := List.exists_mem_of_ne_nil _ hne
      exact hs.window (List.ne_nil_of_mem (List.mem_of_mem_filter hu))
    · cases g <;> exact rfl
    · cases a with
      | inl n => exact ⟨ha.1.apart (hapart u), fun hin => ha.2 (List.mem_of_mem_filter hin)⟩
      | inr g => exact ⟨fun hg => hother (ha.1 hg) hu, fun hg => hother (ha.2 hg) hu⟩

/-- Nothing else that happens around the driver falsifies an account. -/
theorem react_kept {e : Event} (hs : Kept k b s) (he : react k b e s = some s') :
    Kept k b s' ∧ ∀ u a, Tie k b u a s → Tie k b u a s' := by
  cases e with
  | hardIrq => cases he
  | _ =>
    obtain ⟨st, hst, rfl⟩ := Option.map_eq_some_iff.mp he
    obtain ⟨ho, hapart⟩ := HostNotify.react_kept hs.orderly hst
    exact ⟨hs.of_st ho (react_retains hst (by intro h; cases h)), fun u _ ha => ha.of_st (hapart u)⟩

/-- A party that begins falsifies no account. -/
theorem enter_kept {c : Party} (hs : Kept k b s) (ht : Tie k b t (.inl (Hand.empty .idle)) s)
    (he : enter k b c t s = some s') :
    Kept k b s' ∧ (∃ a, Starts b c a ∧ Tie k b t a s') ∧ ∀ u a, u ≠ t → Tie k b u a s → Tie k b u a s' := by
  cases c with
  | call c =>
    obtain ⟨st, hst, rfl⟩ := Option.map_eq_some_iff.mp he
    obtain ⟨ho, ⟨m, hstart, htie⟩, hapart⟩ := HostNotify.enter_kept hs.orderly ht.1 hst
    exact ⟨hs.of_st ho (enter_retains hst), ⟨.inl m, hstart, htie, ht.2⟩, fun u _ hu ha => ha.of_st (hapart u hu)⟩
  | hardIrq =>
    simp only [enter, Option.ite_none_right_eq_some, Option.some.injEq, Bool.and_eq_true] at he
    obtain ⟨⟨hreq, -⟩, rfl⟩ := he
    refine ⟨⟨hs.orderly, fun _ => hreq, fun u hu => List.mem_cons_of_mem _ (hs.stray u hu), hs.window⟩,
      ⟨.inr .entered, rfl, fun _ => List.mem_cons_self, nofun⟩, fun u a hu ha => ?_⟩
    cases a with
    | inl m => exact ⟨ha.1, fun hin => (List.mem_cons.mp hin).elim hu ha.2⟩
    | inr g => exact ⟨fun hg => List.mem_cons_of_mem _ (ha.1 hg), ha.2⟩

/-- An account that begins with a party serves it. -/
theorem Starts.serves {c : Party} {a : Hand ⊕ Stage} (h : Starts b c a) : Serves c a := by
  cases c <;> cases a <;> first | exact HostNotify.Starts.serves h | exact trivial | exact absurd h id

/-- An account serves the same party after an operation. -/
theorem Serves.moves {c : Party} {a a' : Hand ⊕ Stage} {o : Move} {r : o.Ans} (h : Serves c a)
    (hm : ((ledger k b).beside (stages b)).moves a o r a') : Serves c a' := by
  cases a with
  | inl m =>
    cases c with
    | call c =>
      cases o with
      | inl o =>
        cases a' with
        | inl m' => exact HostNotify.Serves.moves h hm
        | inr g => exact absurd hm id
      | inr r => cases a' <;> exact absurd hm id
    | hardIrq => exact absurd h id
  | inr g =>
    cases c with
    | call c => exact absurd h id
    | hardIrq =>
      cases a' with
      | inl m' => cases o <;> exact absurd hm id
      | inr g' => exact trivial

/-- The accounts of all threads, the handler's among them. -/
def custody (k : Setting) (hk : k.strayIrq = false) (b : Board) :
    Custody (interruptible k b) ((ledger k b).beside (stages b)) where
  known _ := True
  inv := Kept k b
  tie := Tie k b
  idle := .inl (Hand.empty .idle)
  starts := Starts b
  during := Serves
  rest := Resting
  starts_during _ _ h := h.serves
  moves_during _ _ _ _ _ h hm := h.moves hm
  event_keeps _ _ _ _ hs he := react_kept hs he
  enter_keeps _ _ _ _ _ hs ht he := enter_kept hs ht he
  step_keeps c t a o s r s' _ hs ht hserves hallow hadm he := by
    cases c with
    | call c =>
      cases a with
      | inr g => exact absurd hserves id
      | inl m =>
        cases o with
        | inr r => exact absurd hallow id
        | inl o =>
          obtain ⟨hs', ⟨m', hmove, htie⟩, hothers⟩ := call_kept hk hs ht hallow hadm he
          exact ⟨hs', ⟨.inl m', hmove, htie⟩, hothers⟩
    | hardIrq =>
      cases a with
      | inl m => exact absurd hserves id
      | inr g =>
        obtain ⟨hs', ⟨g', hmove, htie⟩, hothers⟩ := stage_move_kept hk hs ht hallow hadm he
        exact ⟨hs', ⟨.inr g', by cases o <;> exact hmove, htie⟩, hothers⟩

/-- The accounts before the first call. -/
theorem unbound_kept (h : Unbound k s) :
    Kept k b s ∧ ∀ t, Tie k b t (.inl (Hand.empty .idle)) s := by
  obtain ⟨ho, ht⟩ := HostNotify.unbound_kept h.st
  refine ⟨⟨ho, fun hne => absurd h.handling hne, fun u hu => ?_, fun hne => absurd h.stray hne⟩,
    fun t => ⟨ht t, ?_⟩⟩
  · rw [h.stray] at hu
    cases hu
  · rw [h.handling]
    exact List.not_mem_nil

/-- In every reachable pool each thread has a true account that its program respects. -/
theorem covers {p : Pool Interrupted Move Move.Ans Party} (hk : k.strayIrq = false)
    (h : p.Reachable (interruptible k b) (Unbound k)) : (custody k hk b).Covers p := by
  refine Custody.covers_reachable (custody k hk b) (fun _ _ => trivial) (fun _ => unbound_kept)
    (fun c a hstart => ?_) h
  cases c with
  | call c =>
    cases a with
    | inl m => exact (body_follows c m hstart).left
    | inr g => exact absurd hstart id
  | hardIrq =>
    cases a with
    | inl m => exact absurd hstart id
    | inr g =>
      obtain rfl : g = .entered := hstart
      exact ((hardIrq_follows b).mono fun _ _ _ => trivial).right

/-! ## Runs -/

/-- What a schedule on the described board leads to, if it can be carried out. -/
def outcome (k : Setting) (schedule : List (Action Party Event)) :
    Option (Pool Interrupted Move Move.Ans Party) :=
  Pool.run (interruptible k Board.described) schedule ⟨⟨St.loaded, [], []⟩, []⟩

/-- A schedule that runs through from an unbound driver ends in a reachable state. -/
theorem outcome_reachable {schedule : List (Action Party Event)}
    {p : Pool Interrupted Move Move.Ans Party} (h : outcome k schedule = some p) :
    p.Reachable (interruptible k Board.described) (Unbound k) :=
  ⟨⟨St.loaded, [], []⟩, schedule, ⟨St.loaded_unbound k, rfl, rfl⟩, h⟩

/-- The next `n` operations of thread `i`. -/
def advance (i n : ℕ) : List (Action Party Event) := List.replicate n (.step i)

/-- A schedule without the handler. -/
def calls : List (Action Call Event) → List (Action Party Event) := List.map fun
  | .event e => .event e
  | .call c => .call (.call c)
  | .step i => .step i

end Interrupted

end HostNotify
