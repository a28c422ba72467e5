import HostNotify.Handback

/-!
# Resources are balanced

The two I/O windows, the GSI, the IRQ and the FCH PM region are each taken once and given back
once, whatever fails on the way.
-/

namespace HostNotify

open Bits Interleaving

variable {k : Setting} {b : Board} {p p' : Pool St Op Op.Ans Call} {s s' : St} {t i : ℕ} {m : Hand}
  {o : Op}

/-- What the operation of thread `t` would acquire is not held. -/
def Op.Acquirable (t : ℕ) (s : St) : Op → Prop
  | .requestRegion start len => (start, len) ∉ s.windows
  | .acpiRegisterGsi _ _ _ => s.gsiHeld = false
  | .requestThreadedIrq _ _ => s.irq.requested = false
  | .requestMemRegionMuxed => s.region ≠ some t
  | .requestMuxedRegion start _ => s.muxed start ≠ some t
  | _ => True

/-- What the operation of thread `t` gives back is held. -/
def Op.Releasable (t : ℕ) (s : St) : Op → Prop
  | .releaseRegion start len => (start, len) ∈ s.windows ∨ s.muxed start = some t
  | .acpiUnregisterGsi _ => s.gsiHeld = true
  | .freeIrq => s.irq.requested = true
  | .releaseMemRegion => s.region = some t
  | _ => True

/-- Nothing of the ASF half is held. -/
structure St.Emptied (b : Board) (s : St) : Prop where
  window : b.asfWindow ∉ s.windows
  gsi : s.gsiHeld = false
  irq : s.irq.requested = false

/-- What an account allows to be acquired is free. -/
theorem Tie.acquirable (htie : Tie k b t m s) (h : m.allows k b o) : o.Acquirable t s := by
  cases o with
  | requestRegion start len =>
    obtain ⟨c, v, hrole, hfree⟩ := h
    obtain rfl := htie.estate c v hrole
    change (start, len) ∉ s.windows
    rcases hfree with ⟨hw, hno⟩ | ⟨hw, hno⟩
    · rw [hw]
      exact of_decide_eq_false hno
    · rw [hw]
      exact of_decide_eq_false hno
  | acpiRegisterGsi =>
    obtain ⟨c, v, hrole, hno⟩ := h
    exact (congrArg Estate.gsiHeld (htie.estate c v hrole)).trans hno
  | requestThreadedIrq =>
    obtain ⟨c, v, hrole, hno, _⟩ := h
    exact (htie.requested hrole).trans hno
  | requestMemRegionMuxed => exact fun hheld => htie.region.mp hheld h.2.1
  | requestMuxedRegion start len =>
    intro hheld
    rcases h.2.2.2 with ⟨rfl, hpm, _⟩ | ⟨rfl, himc⟩
    · exact absurd ((htie.pm.mp hheld).symm.trans hpm) (by decide)
    · exact absurd ((htie.imc.mp hheld).symm.trans himc) (by decide)
  | _ => exact trivial

/-- What an account allows to be released is the thread's. -/
theorem Tie.releasable (htie : Tie k b t m s) (h : m.allows k b o) : o.Releasable t s := by
  cases o with
  | releaseRegion start len =>
    rcases h with ⟨c, v, hrole, hheld, _⟩ | ⟨_, hheld⟩
    · obtain rfl := htie.estate c v hrole
      left
      rcases hheld with ⟨hw, hyes⟩ | ⟨hw, hyes⟩
      · rw [hw]
        exact of_decide_eq_true hyes
      · rw [hw]
        exact of_decide_eq_true hyes
    · right
      rcases hheld with ⟨rfl, _, hpm, _⟩ | ⟨rfl, _, himc⟩
      · exact htie.pm.mpr hpm
      · exact htie.imc.mpr himc
  | acpiUnregisterGsi =>
    obtain ⟨c, v, hrole, hyes⟩ := h
    exact (congrArg Estate.gsiHeld (htie.estate c v hrole)).trans hyes
  | freeIrq =>
    obtain ⟨_, c, v, hrole, hyes, _⟩ := h
    exact (htie.requested hrole).trans hyes
  | releaseMemRegion => exact htie.region.mpr h.1
  | _ => exact trivial

/-- A callback that returns without a claim on the block has left nothing of the ASF half. -/
theorem emptied_of_rest {c : CoreCall} (hrest : ((s.estate b).after c).Rest)
    (hlawful : ((s.estate b).after c).Lawful b) (hactive : s.asf.active = false) : s.Emptied b := by
  have hclear : ((s.estate b).after c).asf.active = false := by
    cases c <;> exact hactive
  obtain ⟨hgsi, hheld, _, _⟩ := hrest.unclaimed hclear
  have hreq := hlawful.unrequested hclear
  cases c <;> exact ⟨of_decide_eq_false hheld, hgsi, hreq⟩

/-! ## A second stop and a second disable -/

/-- No IRQ is requested, and probe is not about to request one. -/
structure St.Quiet (s : St) : Prop where
  irq : s.irq.requested = false
  enabling : s.life.enabling = false

/-- A port access changes neither. -/
theorem St.Quiet.portRead (h : s.Quiet) (b : Board) (port : ℕ) : (s.portRead b port).2.Quiet := by
  unfold St.portRead
  split <;> exact { h with }

/-- A port write does not make a quiet state acquire anything. -/
theorem St.Quiet.portWrite (h : s.Quiet) (b : Board) (t : ℕ) (v : Byte) (port : ℕ) :
    (s.portWrite b t v port).Quiet := by
  unfold St.portWrite
  split <;> exact { h with }

/-- The end of a callback does not begin a probe. -/
theorem Life.after_enabling {l : Life} (h : l.enabling = false) (c : CoreCall) :
    (l.after c).enabling = false := by
  cases c <;> first | exact h | rfl

/-- Only probe requests the IRQ. -/
theorem Tie.quiet {r : o.Ans} (htie : Tie k b t m s) (h : m.allows k b o) (hs : s.Quiet)
    (he : exec b t o s = some (r, s')) : s'.Quiet := by
  have hsame : ∀ s₁ : St, s₁.irq.requested = s.irq.requested → s₁.life.enabling = s.life.enabling →
      s₁.Quiet := fun s₁ hirq hen => ⟨hirq.trans hs.irq, hen.trans hs.enabling⟩
  cases o with
  | requestThreadedIrq =>
    obtain ⟨c, v, hrole, _, hen, _⟩ := h
    have hclash : s.life.enabling = true := (congrArg Estate.enabling (htie.estate c v hrole)).trans hen
    exact absurd (hs.enabling.symm.trans hclash) (by decide)
  | inb port =>
    obtain rfl : (s.portRead b port).2 = s' := congrArg Prod.snd (Option.some.inj he)
    exact hs.portRead b port
  | outb v port =>
    obtain rfl : s.portWrite b t v port = s' := congrArg Prod.snd (Option.some.inj he)
    exact hs.portWrite b t v port
  | coreDone c =>
    obtain rfl : { s with life := s.life.after c } = s' := congrArg Prod.snd (Option.some.inj he)
    exact ⟨hs.irq, Life.after_enabling hs.enabling c⟩
  | freeIrq =>
    simp only [exec] at he
    split at he
    · cases he
    · obtain rfl := congrArg Prod.snd (Option.some.inj he)
      exact ⟨rfl, hs.enabling⟩
  | lock l =>
    simp only [exec] at he
    split at he
    · obtain rfl := congrArg Prod.snd (Option.some.inj he)
      cases l <;> exact hsame _ rfl rfl
    · cases he
  | unlock l =>
    obtain rfl := congrArg Prod.snd (Option.some.inj he)
    cases l <;> exact hsame _ rfl rfl
  | requestMemRegionMuxed | requestMuxedRegion | requestRegion | i2cDelAdapter =>
    simp only [exec] at he
    split at he
    all_goals try split at he
    all_goals first
      | (obtain rfl := congrArg Prod.snd (Option.some.inj he); exact hsame _ rfl rfl)
      | cases he
  | mark mk =>
    obtain rfl := congrArg Prod.snd (Option.some.inj he)
    cases mk <;> exact hsame _ rfl rfl
  | i2cAddAdapter asfAlgo =>
    obtain rfl := congrArg Prod.snd (Option.some.inj he)
    refine hsame _ rfl ?_
    dsimp only
    split <;> rfl
  | _ =>
    obtain rfl := congrArg Prod.snd (Option.some.inj he)
    exact hsame _ rfl rfl

/-- Without an IRQ no event brings one. -/
theorem quiet_react {e : Event} (hs : s.Quiet) (he : react k b e s = some s') : s'.Quiet := by
  cases e with
  | hardIrq =>
    simp [react, hardIrq, hs.irq] at he
  | _ =>
    simp only [react] at he
    split at he
    · obtain rfl := Option.some.inj he
      exact { hs with }
    · cases he

/-- Without an IRQ no call that begins brings one, other than probe's. -/
theorem quiet_enter {call : Call} (hs : s.Quiet) (hcall : call ≠ .core .enable)
    (he : enter k b call t s = some s') : s'.Quiet := by
  cases call with
  | core c =>
    simp only [enter] at he
    split at he
    · obtain rfl := Option.some.inj he
      cases c with
      | enable => exact absurd rfl hcall
      | _ => exact { hs with }
    · cases he
  | _ =>
    simp only [enter] at he
    split at he
    · obtain rfl := Option.some.inj he
      exact { hs with }
    · cases he

/-- Until the device is probed again, no IRQ is requested. -/
theorem quiet_run (schedule : List (Action Call Event)) (h : p.Reachable (machine k b) (Unbound k))
    (hs : p.shared.Quiet) (hprobe : .call (.core .enable) ∉ schedule)
    (hrun : p.run (machine k b) schedule = some p') :
    p'.Reachable (machine k b) (Unbound k) ∧ p'.shared.Quiet := by
  induction schedule generalizing p with
  | nil =>
    obtain rfl := Option.some.inj hrun
    exact ⟨h, hs⟩
  | cons a rest ih =>
    rw [List.mem_cons, not_or] at hprobe
    simp only [Pool.run, Option.bind_eq_some_iff] at hrun
    obtain ⟨q, hact, hrest⟩ := hrun
    refine ih (h.act hact) ?_ hprobe.2 hrest
    cases a with
    | event e =>
      obtain ⟨s', hreact, rfl⟩ := Option.map_eq_some_iff.mp hact
      exact quiet_react hs hreact
    | call c =>
      obtain ⟨s', henter, rfl⟩ := Option.map_eq_some_iff.mp hact
      exact quiet_enter hs (fun hc => hprobe.1 (hc ▸ rfl)) henter
    | step i =>
      simp only [Pool.act] at hact
      split at hact
      · next c o next hi =>
        split at hact
        · obtain ⟨⟨r, s'⟩, hexec, rfl⟩ := Option.map_eq_some_iff.mp hact
          obtain ⟨m, _, htie, hallow, _⟩ := (covers h).thread i c _ hi
          exact htie.quiet hallow hs hexec
        · cases hact
      · cases hact

/-- Without a claim on the block, `piix4_asf_disable` leaves its global as it was loaded. -/
theorem disable_idle (hs : s.asf = Piix4Asf.loaded) :
    piix4AsfDisable.runAlone (exec b t) s = some ((), s) := by
  have hactive : s.asf.active = false := by
    rw [hs]
    rfl
  have hstored : { s with asf := Piix4Asf.loaded } = s := by rw [← hs]
  simp only [piix4AsfDisable, piix4Asf, setAsf, perform, Prog.perform_bind, Prog.runAlone, exec, hactive]
  exact congrArg (fun s' => some ((), s')) hstored

/-! ## The whole balance -/

/-- The balance of the resources, in one pool and in what may follow it. -/
structure Balanced (k : Setting) (b : Board) (p : Pool St Op Op.Ans Call) : Prop where
  /-- Nothing is acquired while it is held. -/
  acquires : ∀ i c o, p.next i = some (c, o) → o.Acquirable i p.shared
  /-- Nothing is given back while it is not held. -/
  releases : ∀ i c o, p.next i = some (c, o) → o.Releasable i p.shared
  /-- No call returns with the FCH PM region. -/
  returned : ∀ i c, p.returned i = some c → p.shared.region ≠ some i
  /-- A failed `piix4_asf_enable` leaves nothing behind. -/
  failed : ∀ i, p.next i = some (.core .enable, .coreDone .enable) → p.shared.asf.active = false →
    p.shared.Emptied b
  /-- Nor does `piix4_asf_disable`, which leaves the driver as it was loaded. -/
  disabled : ∀ i, p.next i = some (.core .disable, .coreDone .disable) →
    p.shared.Emptied b ∧ p.shared.asf = Piix4Asf.loaded ∧ p.shared.deliverOk = false
  /-- Once more it changes nothing. -/
  again : ∀ i, p.next i = some (.core .disable, .coreDone .disable) →
    ∀ t, piix4AsfDisable.runAlone (exec b t) p.shared = some ((), p.shared)
  /-- After one `piix4_asf_stop` none frees the IRQ until the device is probed again. -/
  stopped : ∀ i c, p.next i = some (c, .mark .stopped) → ∀ schedule p',
    .call (.core .enable) ∉ schedule → p.run (machine k b) schedule = some p' →
      ∀ j c', p'.next j ≠ some (c', .freeIrq)

/-- The global is as it was loaded once its settings and its two flags are. -/
theorem Piix4Asf.eq_loaded {a : Piix4Asf} (hset : a.settings = loaded) (hpending : a.pending = false)
    (hlisten : a.listening = false) : a = loaded := by
  cases a
  cases hpending
  cases hlisten
  exact hset

/-- When `piix4_asf_disable` returns, the driver is as it was loaded. -/
theorem disabled_loaded (h : p.Reachable (machine k b) (Unbound k))
    (hdone : p.next i = some (.core .disable, .coreDone .disable)) :
    p.shared.Emptied b ∧ p.shared.asf = Piix4Asf.loaded ∧ p.shared.deliverOk = false := by
  obtain ⟨m, htie, _, _, hrest, hlawful, hstill, _⟩ := returning h hdone
  have hset : p.shared.asf.settings = Piix4Asf.loaded := hrest.fresh rfl
  have hactive : p.shared.asf.active = false := congrArg Piix4Asf.active hset
  have hflags := (htie.still (hstill rfl)).1
  exact ⟨emptied_of_rest hrest hlawful hactive,
    Piix4Asf.eq_loaded hset hflags.pending hflags.listening, hlawful.undelivered hactive⟩

/-- In every run the resources are balanced. -/
theorem resources_balanced (h : p.Reachable (machine k b) (Unbound k)) : Balanced k b p where
  acquires i c o hnext := by
    obtain ⟨m, _, htie, hallow⟩ := (covers h).next_allowed hnext
    exact htie.acquirable hallow
  releases i c o hnext := by
    obtain ⟨m, _, htie, hallow⟩ := (covers h).next_allowed hnext
    exact htie.releasable hallow
  returned i c hret := by
    obtain ⟨m, _, htie, hrest⟩ := (covers h).returned hret
    exact fun hheld => htie.region.mp hheld hrest.1.region
  failed i hdone hactive := by
    obtain ⟨_, _, _, _, hrest, hlawful, _⟩ := returning h hdone
    exact emptied_of_rest hrest hlawful hactive
  disabled i hdone := disabled_loaded h hdone
  again i hdone t := disable_idle (disabled_loaded h hdone).2.1
  stopped i c hnext schedule p' hprobe hrun j c' hfree := by
    obtain ⟨m, _, htie, c₀, v, hrole, hreq, hen, _⟩ := (covers h).next_allowed hnext
    have hquiet : p.shared.Quiet :=
      ⟨(htie.requested hrole).trans hreq, (congrArg Estate.enabling (htie.estate c₀ v hrole)).trans hen⟩
    obtain ⟨h', hquiet'⟩ := quiet_run schedule h hquiet hprobe hrun
    obtain ⟨m', _, htie', hallow'⟩ := (covers h').next_allowed hfree
    have hreq' : p'.shared.irq.requested = true := htie'.releasable (o := .freeIrq) hallow'
    exact absurd (hreq'.symm.trans hquiet'.irq) (by decide)

/-- After the device has been unloaded the driver is as it was loaded. -/
theorem resources_balanced_unloaded :
    ∃ p, outcome Setting.all unloaded = some p ∧ p.shared.asf = Piix4Asf.loaded := by
  obtain ⟨p, hp, hdone⟩ := exists_outcome Setting.all unloaded (endsDisable · 5) (by decide +kernel)
  exact ⟨p, hp, ((resources_balanced (outcome_reachable hp)).disabled 5 (endsDisable_some hdone)).2.1⟩

end HostNotify
