import HostNotify.Engine
import HostNotify.Listening

/-!
# Master transfers beside the hard handler

Executions of the hard handler, any number of them at once and each interrupted anywhere, run
between the operations of a transfer. All they can do to the host engine is clear its done bit,
so the transfer is compared on what is left when that bit is forgotten. The two branches of
`piix4_transaction` that test the whole status are taken differently only where the engine is idle.
-/

namespace HostNotify

open Bits Interleaving

/-! ## What the hard handler may do -/

/-- The operations the hard handler uses on the block at `b.auxSmba`. -/
def Op.OfHandler (b : Board) : Op → Prop
  | .inb port => port = asfSta b.auxSmba ∨ port = smbHstSts b.auxSmba ∨ port = asfSlvEn b.auxSmba
  | .outb v port => port = asfSta b.auxSmba ∨ port = asfSlvEn b.auxSmba ∨
      (port = smbHstSts b.auxSmba ∧ v = bit asfHstIntr)
  | .asf => True
  | .setAsf f => ∀ a, (f a).smba = a.smba
  | _ => False

/-- The driver's global names the block. -/
def Op.Plausible (b : Board) : (o : Op) → o.Ans → Prop
  | .asf, a => a.smba = b.auxSmba
  | _, _ => True

section Handler

variable {b : Board}

/-- Masking the interrupt is harmless to a transfer. -/
theorem updateSlven_harmless :
    (piix4AsfUpdateIoport asfSlvIntr (asfSlvEn b.auxSmba) false).AllOpsUnder (Op.OfHandler b)
      (Op.Plausible b) :=
  .op (Or.inr (Or.inr rfl)) fun _ _ => ⟨Or.inr (Or.inl rfl), fun _ _ => trivial⟩

/-- `piix4_asf_irq_handler` keeps to these operations. -/
theorem irqHandler_harmless :
    piix4AsfIrqHandler.AllOpsUnder (Op.OfHandler b) (Op.Plausible b) := by
  unfold piix4AsfIrqHandler
  refine .op trivial fun a (hsmba : a.smba = b.auxSmba) => ?_
  rw [hsmba]
  refine .op (Or.inl rfl) fun sta _ => ?_
  split
  · refine .op (Or.inr (Or.inl rfl)) fun sts _ => ?_
    split
    · exact trivial
    · exact .op (Or.inr (Or.inr ⟨rfl, rfl⟩)) fun _ _ => trivial
  · refine .op (Or.inl rfl) fun _ _ => .op trivial fun a' _ => ?_
    split
    · exact updateSlven_harmless.bind fun _ => trivial
    · exact .op (fun _ => rfl) fun _ _ => trivial

end Handler

namespace Scene

variable {δ : Type} {hard : Hardware δ} {b : Board} {t : ℕ} {x y z : Scene δ}

/-- The block is in master mode with its FIFO at SMBBLKDAT, and the handlers keep to it. -/
structure Mastered (b : Board) (x : Scene δ) : Prop where
  smba : x.st.asf.smba = b.auxSmba
  routed : getElem x.st.hw.bnksel 7 (fits rfl) = true
  harmless : ∀ j, (x.handlers j).AllOpsUnder (Op.OfHandler b) (Op.Plausible b)

/-- What a transfer can tell of the state: the engine but for its done bit, and whether debugging
is on. -/
def view (x : Scene δ) : Engine δ × Bool := (x.engine.forget, x.st.world.debug)

/-- All that the hard handler may do to a scene. -/
structure Eased (b : Board) (x y : Scene δ) : Prop where
  mastered : y.Mastered b
  engine : y.engine = x.engine ∨ y.engine = x.engine.forget
  debug : y.st.world.debug = x.st.world.debug

/-- A mastered scene eases nothing but itself. -/
theorem Mastered.eased (h : x.Mastered b) : x.Eased b x := ⟨h, Or.inl rfl, rfl⟩

/-- Easing twice is easing. -/
theorem Eased.trans (h : x.Eased b y) (h' : y.Eased b z) : x.Eased b z where
  mastered := h'.mastered
  engine := by
    rcases h'.engine with he' | he'
    · rw [he']
      exact h.engine
    · rw [he']
      rcases h.engine with he | he
      · rw [he]
        exact Or.inr rfl
      · rw [he, Engine.forget_forget]
        exact Or.inr rfl
  debug := h'.debug.trans h.debug

/-- The hard handler cannot be noticed. -/
theorem Eased.view_eq (h : x.Eased b y) : y.view = x.view := by
  unfold view
  rw [h.debug]
  rcases h.engine with he | he
  · rw [he]
  · rw [he, Engine.forget_forget]

/-- The done bit comes from nowhere else than the engine. -/
theorem Eased.done (h : x.Eased b y) (hdone : x.engine.forget = x.engine) : y.engine = x.engine := by
  rcases h.engine with he | he
  · exact he
  · exact he.trans hdone

/-! ## Steps of the hard handler -/

/-- A port that is none of the engine's. -/
theorem host_none {port : ℕ} (h : decodeHost b.auxSmba port = none) : x.host b port = none := by
  unfold host
  rw [h, ite_self]

/-- A port of the engine is one to the host. -/
theorem host_some {port : ℕ} {r : HostReg} (hrouted : getElem x.st.hw.bnksel 7 (fits rfl) = true)
    (h : decodeHost b.auxSmba port = some r) : x.host b port = some r := by
  unfold host
  rw [if_neg (by simp [hrouted]), h]

/-- One operation of the hard handler. -/
theorem exec_harmless {o : Op} {r : o.Ans} (h : x.Mastered b) (ho : o.OfHandler b)
    (he : x.exec hard b t o = some (r, y)) :
    x.Eased b y ∧ y.handlers = x.handlers ∧ o.Plausible b r := by
  cases o with
  | inb port =>
    rcases ho with rfl | rfl | rfl
    · simp only [exec, HostNotify.exec, St.portRead_reg _ (decode_asfSta _), Option.map_some,
        Option.some.injEq, Prod.mk.injEq] at he
      obtain ⟨-, rfl⟩ := he
      refine ⟨⟨⟨h.smba, h.routed, h.harmless⟩, Or.inl ?_, rfl⟩, rfl, trivial⟩
      simp [respond, host_none]
    · simp only [exec, HostNotify.exec, St.portRead_host _ (decode_smbHstSts _), Option.map_some,
        Option.some.injEq, Prod.mk.injEq] at he
      obtain ⟨-, rfl⟩ := he
      refine ⟨⟨⟨h.smba, h.routed, h.harmless⟩, Or.inl ?_, rfl⟩, rfl, trivial⟩
      simp [respond, host_some h.routed (decodeHost_smbHstSts _), Engine.read]
    · simp only [exec, HostNotify.exec, St.portRead_reg _ (decode_asfSlvEn _), Option.map_some,
        Option.some.injEq, Prod.mk.injEq] at he
      obtain ⟨-, rfl⟩ := he
      refine ⟨⟨⟨h.smba, h.routed, h.harmless⟩, Or.inl ?_, rfl⟩, rfl, trivial⟩
      simp [respond, host_none]
  | outb v port =>
    rcases ho with rfl | rfl | ⟨rfl, rfl⟩
    · simp only [exec, HostNotify.exec, St.portWrite_reg _ _ _ (decode_asfSta _), Option.map_some,
        Option.some.injEq, Prod.mk.injEq] at he
      obtain ⟨-, rfl⟩ := he
      refine ⟨⟨⟨h.smba, h.routed, h.harmless⟩, Or.inl ?_, rfl⟩, rfl, trivial⟩
      simp [respond, host_none]
    · simp only [exec, HostNotify.exec, St.portWrite_reg _ _ _ (decode_asfSlvEn _), Option.map_some,
        Option.some.injEq, Prod.mk.injEq] at he
      obtain ⟨-, rfl⟩ := he
      refine ⟨⟨⟨h.smba, ?_, h.harmless⟩, Or.inl ?_, rfl⟩, rfl, trivial⟩
      · rw [← h.routed]
        simp only [Target.write]
        split <;> rfl
      · simp [respond, host_none]
    · simp only [exec, HostNotify.exec, St.portWrite_host _ _ _ (decode_smbHstSts _),
        Option.map_some, Option.some.injEq, Prod.mk.injEq] at he
      obtain ⟨-, rfl⟩ := he
      refine ⟨⟨⟨h.smba, h.routed, h.harmless⟩, Or.inr ?_, rfl⟩, rfl, trivial⟩
      simp [respond, host_some h.routed (decodeHost_smbHstSts _), Engine.write_done]
  | asf =>
    simp only [exec, HostNotify.exec, Option.map_some, Option.some.injEq, Prod.mk.injEq] at he
    obtain ⟨rfl, rfl⟩ := he
    exact ⟨⟨⟨h.smba, h.routed, h.harmless⟩, Or.inl rfl, rfl⟩, rfl, h.smba⟩
  | setAsf f =>
    simp only [exec, HostNotify.exec, Option.map_some, Option.some.injEq, Prod.mk.injEq] at he
    obtain ⟨-, rfl⟩ := he
    exact ⟨⟨⟨(ho _).trans h.smba, h.routed, h.harmless⟩, Or.inl rfl, rfl⟩, rfl, trivial⟩
  | _ => exact ho.elim

variable (hard) in
/-- One step of one handler leaves the transfer at ease. -/
theorem poke_eased (h : x.Mastered b) (j : ℕ) : x.Eased b (x.poke hard b j) := by
  unfold poke
  split
  · exact h.eased
  · next o next hrest =>
    have hops := h.harmless j
    rw [hrest] at hops
    split
    · exact h.eased
    · next r y he =>
      obtain ⟨hy, hsame, hr⟩ := exec_harmless h hops.1 he
      refine ⟨⟨hy.mastered.smba, hy.mastered.routed, fun i => ?_⟩, hy.engine, hy.debug⟩
      dsimp only
      by_cases hi : i = j
      · subst hi
        rw [Function.update_self]
        exact hops.2 r hr
      · rw [Function.update_of_ne hi, hsame]
        exact h.harmless i

variable (hard) in
/-- Any number of steps, of any handlers. -/
theorem pokes_eased (h : x.Mastered b) (l : List ℕ) : x.Eased b (l.foldl (poke hard b) x) := by
  induction l generalizing x with
  | nil => exact h.eased
  | cons j l ih =>
    have hstep := poke_eased hard h j
    exact hstep.trans (ih hstep.mastered)

/-! ## Between two operations of a transfer -/

/-- What happens on the bus, as far as a transfer can tell. -/
def tick (hard : Hardware δ) (v : Engine δ × Bool) : Engine δ × Bool := ((hard.advance v.1).forget, v.2)

/-- A view of an idle engine. -/
def Resting (v : Engine δ × Bool) : Prop := v.1.Idle ∧ v.1.forget = v.1

/-- A resting engine stays as it is. -/
theorem Resting.tick {v : Engine δ × Bool} (h : Resting v) : tick hard v = v := by
  unfold Scene.tick
  rw [hard.advance_idle _ h.1, h.2]

variable (hard) in
/-- What happens on the bus leaves the scene mastered. -/
theorem Mastered.advance (h : x.Mastered b) : (advance hard x).Mastered b :=
  ⟨h.smba, h.routed, h.harmless⟩

variable (hard) in
/-- Between two operations the handlers change nothing that the transfer sees. -/
theorem between_view (h : x.Mastered b) (g : List ℕ × List ℕ) :
    (between hard b g x).Mastered b ∧ (between hard b g x).view = tick hard x.view := by
  have hbefore := pokes_eased hard h g.1
  have hafter := pokes_eased hard (hbefore.mastered.advance hard) g.2
  refine ⟨hafter.mastered, hafter.view_eq.trans ?_⟩
  rw [← hbefore.view_eq]
  exact Prod.ext (hard.advance_forget _).symm rfl

/-- An idle engine stays idle. -/
theorem Eased.idle (h : x.Eased b y) (hidle : x.engine.Idle) : y.engine.Idle := by
  rcases h.engine with he | he
  · rw [he]
    exact hidle
  · rw [he]
    exact (Engine.forget_idle _).mpr hidle

variable (hard) in
/-- Where the engine is idle nobody but the hard handler touches it. -/
theorem between_idle (h : x.Mastered b) (hidle : x.engine.Idle) (g : List ℕ × List ℕ) :
    x.Eased b (between hard b g x) := by
  have hbefore := pokes_eased hard h g.1
  have hsame : Scene.advance hard (g.1.foldl (poke hard b) x) = g.1.foldl (poke hard b) x := by
    rw [Scene.advance, hard.advance_idle _ (hbefore.idle hidle)]
  unfold between
  rw [hsame]
  exact hbefore.trans (pokes_eased hard hbefore.mastered g.2)

/-! ## Operations of a transfer -/

/-- A host port is either not the block's or the data window. -/
theorem decode_host {base port : ℕ} {r : HostReg} (h : decodeHost base port = some r) :
    decode base port = if r = .blkdat then some .index else none := by
  unfold decodeHost at h
  unfold decode
  split at h
  · cases h
  · next hbase =>
    rw [if_neg hbase]
    split at h <;> cases h <;> simp [*]

/-- A host register reads as the engine has it. -/
theorem exec_read {port : ℕ} {r : HostReg} (h : x.Mastered b)
    (hport : decodeHost b.auxSmba port = some r) :
    x.exec hard b t (.inb port) =
      some ((x.engine.read r).1,
        { x with st := x.bused b (.inb port), engine := (x.engine.read r).2 }) := by
  have hanswer : x.answer b (.inb port) = (x.engine.read r).1 := by
    simp [answer, host_some h.routed hport]
  have hrespond : x.respond hard b (.inb port) = (x.engine.read r).2 := by
    simp [respond, host_some h.routed hport]
  have hread : (x.bused b (.inb port)).portRead b port =
      ((x.engine.read r).1, x.bused b (.inb port)) := by
    have hdecode := decode_host hport
    rw [← hanswer]
    split at hdecode
    · rw [St.portRead_reg _ hdecode]
      have hrouted : (x.bused b (.inb port)).hw.bnksel.getLsbD 7 = true := h.routed
      simp only [Target.read, hrouted, if_true]
      rfl
    · rw [St.portRead_host _ hdecode]
      rfl
  unfold exec
  rw [hrespond, HostNotify.exec, hread]
  rfl

/-- A write of a host register. -/
theorem exec_write {port : ℕ} {r : HostReg} (v : Byte) (h : x.Mastered b)
    (hport : decodeHost b.auxSmba port = some r) :
    x.exec hard b t (.outb v port) =
      some ((), { x with st := x.bused b (.outb v port), engine := x.engine.write hard v r }) := by
  have hrespond : x.respond hard b (.outb v port) = x.engine.write hard v r := by
    simp [respond, host_some h.routed hport]
  have hwrite : (x.bused b (.outb v port)).portWrite b t v port = x.bused b (.outb v port) := by
    have hdecode := decode_host hport
    split at hdecode
    · rw [St.portWrite_reg _ _ _ hdecode]
      rfl
    · rw [St.portWrite_host _ _ _ hdecode]
  unfold exec
  rw [hrespond, HostNotify.exec, hwrite]
  rfl

variable {A B : Type} {v w : Engine δ × Bool} {port : ℕ} {r : HostReg}

/-- `p` ends as `Q` says whatever the hard handler does meanwhile. -/
abbrev Leads (hard : Hardware δ) (b : Board) (t : ℕ) (p : Driver A) (v : Engine δ × Bool)
    (Q : A → Engine δ × Bool → Prop) : Prop :=
  p.Leads (disturbed hard b t) (fun x => x.1.Mastered b) (fun x => x.1.view) v Q

/-- `p` ends in one way whatever the hard handler does meanwhile. -/
abbrev Determined (hard : Hardware δ) (b : Board) (t : ℕ) (I : Engine δ × Bool → Prop)
    (p : Driver A) (v : Engine δ × Bool) : Prop :=
  p.Determined (disturbed hard b t) (fun x => x.1.Mastered b) (fun x => x.1.view) I v

/-- One operation, of which the handlers have left only the view. -/
theorem op_leads {o : Op} {Q : o.Ans → Engine δ × Bool → Prop}
    (h : ∀ x : Scene δ, x.Mastered b → x.view = tick hard v →
      ∃ r y, x.exec hard b t o = some (r, y) ∧ y.Mastered b ∧ Q r y.view) :
    Leads hard b t (perform o) v Q := by
  rintro ⟨x, gs⟩ hgood hview
  obtain ⟨hmid, hlook⟩ := between_view hard hgood (gs 0)
  obtain ⟨r, y, he, hy, hQ⟩ := h _ hmid (hlook.trans (congrArg (tick hard) hview))
  have hexec : disturbed hard b t o (x, gs) = some (r, y, fun n => gs (n + 1)) := by
    simp only [disturbed, Prog.interrupted, he, Option.map_some]
  exact .op hexec (.ret ⟨hy, hQ⟩)

/-- A register other than the status reads as the view says. -/
theorem inb_leads (hport : decodeHost b.auxSmba port = some r) (hr : r ≠ .sts) :
    Leads hard b t (inb port) v fun a w =>
      a = ((tick hard v).1.read r).1 ∧ w = (((tick hard v).1.read r).2, v.2) := by
  refine op_leads fun x hx hview => ⟨_, _, exec_read hx hport, ⟨hx.smba, hx.routed, hx.harmless⟩, ?_⟩
  obtain ⟨hfirst, hsecond⟩ := Engine.read_forget hr x.engine
  have hengine : x.engine.forget = (tick hard v).1 := congrArg Prod.fst hview
  have hdebug : x.st.world.debug = v.2 := congrArg Prod.snd hview
  rw [← hengine]
  exact ⟨hfirst.symm, Prod.ext hsecond.symm hdebug⟩

/-- The status reads as the view says but for the done bit. -/
theorem status_leads : Leads hard b t (inb (smbHstSts b.auxSmba)) v fun a w =>
    assignBit asfHstIntr a false = (tick hard v).1.sts ∧ w = tick hard v := by
  refine op_leads fun x hx hview =>
    ⟨_, _, exec_read hx (decodeHost_smbHstSts _), ⟨hx.smba, hx.routed, hx.harmless⟩, ?_⟩
  have hengine : x.engine.forget = (tick hard v).1 := congrArg Prod.fst hview
  rw [← hengine]
  exact ⟨rfl, hview⟩

/-- What a write leaves of the view. -/
theorem outb_leads (a : Byte) (hport : decodeHost b.auxSmba port = some r) :
    Leads hard b t (outb a port) v fun _ w =>
      w = (((tick hard v).1.write hard a r).forget, v.2) := by
  refine op_leads fun x hx hview =>
    ⟨_, _, exec_write a hx hport, ⟨hx.smba, hx.routed, hx.harmless⟩, ?_⟩
  have hengine : x.engine.forget = (tick hard v).1 := congrArg Prod.fst hview
  have hdebug : x.st.world.debug = v.2 := congrArg Prod.snd hview
  rw [← hengine, Engine.write_forget]
  exact Prod.ext rfl hdebug

/-- A sleep lets the engine go on. -/
theorem usleepRange_leads (lo hi : ℕ) : Leads hard b t (usleepRange lo hi) v fun _ w => w = tick hard v :=
  op_leads fun _ hx hview => ⟨_, _, rfl, ⟨hx.smba, hx.routed, hx.harmless⟩, hview⟩

/-- An answer about debugging lets the engine go on. -/
theorem dynamicDebug_leads : Leads hard b t (perform .dynamicDebug) v fun a w =>
    a = v.2 ∧ w = tick hard v :=
  op_leads fun _ hx hview =>
    ⟨_, _, rfl, ⟨hx.smba, hx.routed, hx.harmless⟩, congrArg Prod.snd hview, hview⟩

/-! ## Determined pieces -/

/-- What the operations of a transfer keep of a view, the start bit and the status aside. -/
structure Kept (hard : Hardware δ) (I : Engine δ × Bool → Prop) : Prop where
  tick : ∀ v, I v → I (tick hard v)
  read : ∀ v r, I v → I ((v.1.read r).2, v.2)
  write : ∀ v (a : Byte) r, I v → r ≠ .sts → (r = .cnt → getElem a 6 (fits rfl) = false) →
    I ((v.1.write hard a r).forget, v.2)

/-- Nothing in particular is kept. -/
theorem kept_any : Kept hard fun _ => True :=
  ⟨fun _ _ => trivial, fun _ _ _ => trivial, fun _ _ _ _ _ _ => trivial⟩

/-- An engine that was idle is idle still. -/
theorem kept_resting : Kept hard Resting where
  tick v h := by
    rw [h.tick]
    exact h
  read v r h := by
    obtain ⟨hidle, hforget⟩ := h
    have hdone := (Engine.forget_eq_iff v.1).mp hforget
    cases r <;> exact ⟨hidle, (Engine.forget_eq_iff _).mpr hdone⟩
  write v a r h hr hgo := by
    refine ⟨?_, Engine.forget_forget _⟩
    rw [Engine.forget_idle]
    cases r with
    | sts => exact absurd rfl hr
    | cnt =>
      have hstop : a.getLsbD 6 = false := hgo rfl
      unfold Engine.write
      rw [hstop]
      exact h.1
    | cmd => exact h.1
    | add => exact h.1
    | dat0 => exact h.1
    | dat1 => exact h.1
    | blkdat => exact h.1

section Pieces

variable {I : Engine δ × Bool → Prop}

/-- A register of the engine is read as the engine has it. -/
theorem inb_determined (hI : Kept hard I) (hv : I v) (hport : decodeHost b.auxSmba port = some r)
    (hr : r ≠ .sts) : Determined hard b t I (inb port) v :=
  ⟨_, _, hI.read _ _ (hI.tick _ hv), inb_leads hport hr⟩

/-- A register of the engine is written as the engine has it. -/
theorem outb_determined (hI : Kept hard I) (hv : I v) (a : Byte)
    (hport : decodeHost b.auxSmba port = some r) (hr : r ≠ .sts)
    (hgo : r = .cnt → getElem a 6 (fits rfl) = false) : Determined hard b t I (outb a port) v :=
  ⟨(), _, hI.write _ a r (hI.tick _ hv) hr hgo,
    (outb_leads a hport).mono fun _ _ hw => ⟨rfl, hw⟩⟩

/-- A sleep is determined. -/
theorem usleepRange_determined (lo hi : ℕ) : Determined hard b t (fun _ => True) (usleepRange lo hi) v :=
  ⟨(), _, trivial, (usleepRange_leads lo hi).mono fun _ _ hw => ⟨rfl, hw⟩⟩

/-- The register dump is determined. -/
theorem transactionDebug_determined (hI : Kept hard I) (hv : I v) :
    Determined hard b t I (transactionDebug b.auxSmba) v := by
  have hflag : Determined hard b t I (perform .dynamicDebug) v :=
    ⟨_, _, hI.tick _ hv, dynamicDebug_leads⟩
  unfold transactionDebug
  refine hflag.bind fun on w hw => ?_
  cases on with
  | false => exact .ret hw
  | true =>
    refine (inb_determined hI hw (decodeHost_smbHstCnt _) (by decide)).bind fun _ w hw => ?_
    refine (inb_determined hI hw (decodeHost_smbHstCmd _) (by decide)).bind fun _ w hw => ?_
    refine (inb_determined hI hw (decodeHost_smbHstAdd _) (by decide)).bind fun _ w hw => ?_
    refine (inb_determined hI hw (decodeHost_smbHstDat0 _) (by decide)).bind fun _ w hw => ?_
    refine (inb_determined hI hw (decodeHost_smbHstDat1 _) (by decide)).bind fun _ w hw => ?_
    exact .ret hw

/-- Writing a status back clears the same bits, whatever its done bit. -/
theorem ack_leads {sts m : Byte} (hsts : assignBit asfHstIntr sts false = m) :
    Leads hard b t (outb sts (smbHstSts b.auxSmba)) v fun _ w =>
      w = (((tick hard v).1.write hard m .sts).forget, v.2) := by
  refine (outb_leads sts (decodeHost_smbHstSts _)).mono fun _ w hw => ?_
  rw [hw, ← hsts, Engine.write_sts_forget]

/-- A bit of the status other than the done bit. -/
theorem and_bit_forget {sts m : Byte} (hsts : assignBit asfHstIntr sts false = m) {i : ℕ} (hi : i < 8)
    (hne : i ≠ 1) : sts &&& bit i ≠ 0 ↔ m &&& bit i ≠ 0 := by
  rw [not_iff_not, ← hsts]
  refine (and_bit_eq_zero sts i hi).trans (Iff.trans ?_ (and_bit_eq_zero _ i hi).symm)
  rw [getElem_assignBit, if_neg (Ne.symm hne)]

variable (hard) in
/-- Polling sees the same for the same time, the done bit aside. -/
theorem pollHost_leads (left : ℕ) {v : Engine δ × Bool} (m : Byte) :
    ∃ timedOut m' w, ∀ temp, assignBit asfHstIntr temp false = m →
      Leads hard b t (pollHost b.auxSmba left temp) v fun a u =>
        a.1 = timedOut ∧ assignBit asfHstIntr a.2 false = m' ∧ u = w := by
  induction left generalizing v m with
  | zero => exact ⟨true, m, v, fun temp htemp => .ret ⟨rfl, htemp, rfl⟩⟩
  | succ left ih =>
    by_cases hbusy : (tick hard v).1.sts &&& bit 0 ≠ 0
    · obtain ⟨timedOut, m', w, hrest⟩ := ih (v := tick hard (tick hard v)) (tick hard v).1.sts
      refine ⟨timedOut, m', w, fun _ _ => ?_⟩
      unfold pollHost
      refine status_leads.bind ?_
      rintro temp _ ⟨htemp, rfl⟩
      rw [if_pos ((and_bit_forget htemp (by decide) (by decide)).mpr hbusy)]
      refine (usleepRange_leads 250 500).bind ?_
      rintro _ _ rfl
      exact hrest temp htemp
    · refine ⟨false, (tick hard v).1.sts, tick hard v, fun _ _ => ?_⟩
      unfold pollHost
      refine status_leads.bind ?_
      rintro temp _ ⟨htemp, rfl⟩
      rw [if_neg fun h => hbusy ((and_bit_forget htemp (by decide) (by decide)).mp h)]
      exact .ret ⟨rfl, htemp, rfl⟩

end Pieces

/-! ## The transaction -/

/-- A status without its done bit. -/
theorem status_zero {sts : Byte} (h : sts = 0) : assignBit asfHstIntr sts false = 0 := by
  rw [h]
  decide

/-- A view after something happened on the bus shows no done bit. -/
theorem tick_forget : (tick hard v).1.forget = (tick hard v).1 := Engine.forget_forget _

/-- A clear status is that of an idle engine. -/
theorem resting_of_zero (h : (tick hard v).1.sts = 0) : Resting (tick hard v) := by
  refine ⟨?_, tick_forget⟩
  unfold Engine.Idle
  rw [h]
  decide

/-- Writing back a clear status changes nothing. -/
theorem write_zero (h : Resting v) : ((v.1.write hard 0 .sts).forget, v.2) = v := by
  have hsame : v.1.write hard 0 .sts = v.1 := by
    have hones : ~~~(0 : Byte) = BitVec.allOnes 8 := by decide
    have hsts : v.1.sts &&& (~~~(0 : Byte) ||| hard.sticky) = v.1.sts := by
      rw [hones, BitVec.allOnes_or, BitVec.and_allOnes]
    unfold Engine.write
    rw [hsts]
  rw [hsame, h.2]

section Transaction

variable {classify : Bool → Byte → Int}

/-- From the start bit to the error code. The first look at the final status may find it clear in
one run and the done bit set in another: the engine is idle then, and the two ways meet again. -/
theorem runTransaction_determined
    (hclassify : ∀ timedOut temp,
      classify timedOut (assignBit asfHstIntr temp false) = classify timedOut temp)
    (csb5Delay : Bool) :
    Determined hard b t (fun _ => True) (runTransaction classify b.auxSmba csb5Delay) v := by
  -- the end of the transaction once the status has been cleared
  have hend : ∀ (w : Engine δ × Bool) timedOut m, ∃ a u, ∀ temp,
      assignBit asfHstIntr temp false = m →
      Leads hard b t (do
        let _ ← inb (smbHstSts b.auxSmba)
        transactionDebug b.auxSmba
        pure (classify timedOut temp)) w fun a' u' => a' = a ∧ u' = u := by
    intro w timedOut m
    obtain ⟨_, u, -, hdebug⟩ := transactionDebug_determined (t := t) (b := b) (v := tick hard w)
      kept_any trivial
    refine ⟨classify timedOut m, u, fun temp htemp => ?_⟩
    refine status_leads.bind ?_
    rintro _ _ ⟨-, rfl⟩
    refine hdebug.bind ?_
    rintro _ _ ⟨-, rfl⟩
    refine .ret ⟨?_, rfl⟩
    rw [← htemp, hclassify]
  -- the clearing itself
  have hclear : ∀ (w : Engine δ × Bool) timedOut m, ∃ a u, ∀ temp,
      assignBit asfHstIntr temp false = m →
      Leads hard b t (do
        if (← inb (smbHstSts b.auxSmba)) ≠ 0 then
          let sts ← inb (smbHstSts b.auxSmba)
          outb sts (smbHstSts b.auxSmba)
        let _ ← inb (smbHstSts b.auxSmba)
        transactionDebug b.auxSmba
        pure (classify timedOut temp)) w fun a' u' => a' = a ∧ u' = u := by
    intro w timedOut m
    by_cases hzero : (tick hard w).1.sts = 0
    · have hrest := resting_of_zero hzero
      obtain ⟨a, u, hdone⟩ := hend (tick hard w) timedOut m
      refine ⟨a, u, fun temp htemp => status_leads.bind ?_⟩
      rintro first _ ⟨-, rfl⟩
      dsimp only
      split
      · refine status_leads.bind ?_
        rintro sts _ ⟨hsts, rfl⟩
        rw [hrest.tick, hzero] at hsts
        refine (ack_leads hsts).bind ?_
        rintro _ _ rfl
        rw [hrest.tick, hrest.tick, write_zero hrest]
        exact hdone temp htemp
      · exact hdone temp htemp
    · obtain ⟨a, u, hdone⟩ := hend
        (((tick hard (tick hard (tick hard w))).1.write hard (tick hard (tick hard w)).1.sts .sts).forget,
          w.2) timedOut m
      refine ⟨a, u, fun temp htemp => status_leads.bind ?_⟩
      rintro first _ ⟨hfirst, rfl⟩
      have hset : first ≠ 0 := fun h => hzero (hfirst.symm.trans (status_zero h))
      dsimp only
      rw [if_pos hset]
      refine status_leads.bind ?_
      rintro sts _ ⟨hsts, rfl⟩
      refine (ack_leads hsts).bind ?_
      rintro _ _ rfl
      exact hdone temp htemp
  unfold runTransaction
  refine (inb_determined kept_any trivial (decodeHost_smbHstCnt _) (by decide)).bind fun cnt w _ => ?_
  have hgo : Determined hard b t (fun _ => True) (outb (cnt ||| bit 6) (smbHstCnt b.auxSmba)) w :=
    ⟨(), _, trivial, (outb_leads _ (decodeHost_smbHstCnt _)).mono fun _ _ hw => ⟨rfl, hw⟩⟩
  refine hgo.bind fun _ w _ => ?_
  cases csb5Delay
  all_goals
    refine (usleepRange_determined _ _).bind fun _ w _ => ?_
    obtain ⟨timedOut, m, u, hpoll⟩ := pollHost_leads hard (b := b) (t := t) (v := w)
      (maxTimeout - 1) (assignBit asfHstIntr 0 false)
    obtain ⟨a, u', hrest⟩ := hclear u timedOut m
    refine ⟨a, u', trivial, (hpoll 0 rfl).bind ?_⟩
    rintro ⟨_, temp⟩ _ ⟨rfl, htemp, rfl⟩
    exact hrest temp htemp

variable (hard) in
/-- A look at the status of an idle engine. -/
theorem status_idle {x : Scene δ × (ℕ → List ℕ × List ℕ)} (hx : x.1.Mastered b)
    (hidle : x.1.engine.Idle) : ∃ y, disturbed hard b t (.inb (smbHstSts b.auxSmba)) x =
      some (y.1.engine.sts, y) ∧ x.1.Eased b y.1 := by
  have hmid := between_idle hard hx hidle (x.2 0)
  refine ⟨({ between hard b (x.2 0) x.1 with
    st := (between hard b (x.2 0) x.1).bused b (.inb (smbHstSts b.auxSmba)) }, fun n => x.2 (n + 1)), ?_,
    ⟨hmid.mastered.smba, hmid.mastered.routed, hmid.mastered.harmless⟩, hmid.engine, hmid.debug⟩
  rw [disturbed, Prog.interrupted, exec_read hmid.mastered (decodeHost_smbHstSts _)]
  rfl

variable (hard) in
/-- A write to the status of an idle engine. -/
theorem clear_idle {x : Scene δ × (ℕ → List ℕ × List ℕ)} (hx : x.1.Mastered b)
    (hidle : x.1.engine.Idle) (a : Byte) :
    ∃ y e, disturbed hard b t (.outb a (smbHstSts b.auxSmba)) x = some ((), y) ∧ y.1.Mastered b ∧
      y.1.view = ((x.1.engine.forget.write hard a .sts).forget, x.1.st.world.debug) ∧
      y.1.engine = e.write hard a .sts ∧ (e = x.1.engine ∨ e = x.1.engine.forget) := by
  have hmid := between_idle hard hx hidle (x.2 0)
  refine ⟨({ between hard b (x.2 0) x.1 with
    st := (between hard b (x.2 0) x.1).bused b (.outb a (smbHstSts b.auxSmba))
    engine := (between hard b (x.2 0) x.1).engine.write hard a .sts }, fun n => x.2 (n + 1)), _, ?_,
    ⟨hmid.mastered.smba, hmid.mastered.routed, hmid.mastered.harmless⟩, ?_, rfl, hmid.engine⟩
  · rw [disturbed, Prog.interrupted, exec_write a hmid.mastered (decodeHost_smbHstSts _)]
    rfl
  · refine Prod.ext ?_ hmid.debug
    have hforget : (between hard b (x.2 0) x.1).engine.forget = x.1.engine.forget :=
      congrArg Prod.fst hmid.view_eq
    rw [← hforget, Engine.write_forget]
    rfl

/-- Writing back a status leaves no done bit. -/
theorem write_back_done (hard : Hardware δ) {e e' : Engine δ} (h : e' = e ∨ e' = e.forget) :
    (e'.write hard e.sts .sts).forget = e'.write hard e.sts .sts := by
  have hsticky := hard.sticky_done
  rw [Engine.forget_eq_iff]
  rcases h with rfl | rfl
  · simp [Engine.write, hsticky]
  · simp [Engine.write, Engine.forget]

/-- `piix4_transaction` on an engine that is idle when it begins. The first look at the status may
find it clear in one run and the done bit set in another; once cleared, no done bit comes back. -/
theorem transactionWith_determined
    (hclassify : ∀ timedOut temp,
      classify timedOut (assignBit asfHstIntr temp false) = classify timedOut temp)
    (csb5Delay : Bool) (hv : Resting v) :
    Determined hard b t (fun _ => True) (transactionWith classify b.auxSmba csb5Delay) v := by
  unfold transactionWith
  refine (transactionDebug_determined kept_resting hv).bind fun _ v hv => ?_
  -- the view once the status has been written back, and how the transaction ends from it
  obtain ⟨w, hw⟩ : ∃ w, ((v.1.write hard v.1.sts .sts).forget, v.2) = w := ⟨_, rfl⟩
  have hidle : w.1.Idle := by
    have hbusy : v.1.sts[0] = false := hv.1
    rw [← hw, Engine.forget_idle]
    simp [Engine.Idle, Engine.write, hbusy]
  obtain ⟨a, u, -, hrun⟩ : Determined hard b t (fun _ => True)
      (if w.1.sts ≠ 0 then pure (-ebusy) else runTransaction classify b.auxSmba csb5Delay) w := by
    split
    · exact .ret trivial
    · exact runTransaction_determined hclassify csb5Delay
  refine ⟨a, u, trivial, fun x hx hview => ?_⟩
  have hforget : x.1.engine.forget = v.1 := congrArg Prod.fst hview
  have hxidle : x.1.engine.Idle := by
    rw [← Engine.forget_idle, hforget]
    exact hv.1
  obtain ⟨y, hexec, heased⟩ := status_idle hard (t := t) hx hxidle
  refine .bind (Q := fun c z => c = y.1.engine.sts ∧ z = y) (.op hexec (.ret ⟨rfl, rfl⟩)) ?_
  rintro _ y ⟨rfl, rfl⟩
  have hyforget : y.1.engine.forget = v.1 := by
    rw [← hforget]
    exact congrArg Prod.fst heased.view_eq
  have hsts : assignBit asfHstIntr y.1.engine.sts false = v.1.sts := congrArg Engine.sts hyforget
  by_cases hset : y.1.engine.sts ≠ 0
  · rw [if_pos hset]
    obtain ⟨z, e, hexec', hz, hzview, hengine, he⟩ :=
      clear_idle hard (t := t) heased.mastered (heased.idle hxidle) y.1.engine.sts
    have hdone : z.1.engine.forget = z.1.engine := by
      rw [hengine]
      exact write_back_done hard he
    have hdebug : y.1.st.world.debug = v.2 := congrArg Prod.snd (heased.view_eq.trans hview)
    have hzw : z.1.view = w := by
      rw [hzview, ← hw, hyforget, ← hsts, Engine.write_sts_forget, hdebug]
    have hzidle : z.1.engine.Idle := by
      have hzforget : z.1.engine.forget = w.1 := congrArg Prod.fst hzw
      rw [← Engine.forget_idle, hzforget]
      exact hidle
    refine .bind (Q := fun _ z' => z' = z) (.op hexec' (.ret rfl)) ?_
    rintro _ z rfl
    obtain ⟨z', hexec'', heased'⟩ := status_idle hard (t := t) hz hzidle
    refine .bind (Q := fun c z'' => c = z'.1.engine.sts ∧ z'' = z') (.op hexec'' (.ret ⟨rfl, rfl⟩)) ?_
    rintro _ z' ⟨rfl, rfl⟩
    have hagain : z'.1.engine.sts = w.1.sts := by
      rw [heased'.done hdone, ← hdone]
      exact congrArg (fun v => v.1.sts) hzw
    rw [hagain]
    exact hrun z' heased'.mastered (heased'.view_eq.trans hzw)
  · rw [if_neg hset]
    have hzero : v.1.sts = 0 := by
      rw [← hsts, not_not.mp hset]
      decide
    have hwv : w = v := by
      rw [← hw, hzero]
      exact write_zero hv
    rw [hwv, if_neg (not_not.mpr hzero)] at hrun
    exact hrun y heased.mastered (heased.view_eq.trans hview)

end Transaction

/-! ## The whole transfer -/

/-- `piix4_transaction` makes nothing of the done bit. -/
theorem patchedResult_forget (timedOut : Bool) (temp : Byte) :
    patchedResult timedOut (assignBit asfHstIntr temp false) = patchedResult timedOut temp := by
  have hbit : ∀ i, i < 8 → i ≠ 1 →
      (assignBit asfHstIntr temp false &&& bit i ≠ 0 ↔ temp &&& bit i ≠ 0) :=
    fun i hi hne => (and_bit_forget rfl hi hne).symm
  simp only [patchedResult, hbit 4 (by decide) (by decide), hbit 3 (by decide) (by decide),
    hbit 2 (by decide) (by decide)]

section Transfer

variable {I : Engine δ × Bool → Prop}

/-- Writing a block makes nothing of the done bit. -/
theorem writeBlock_determined (data : SmbusData) (left : ℕ) {i : ℕ} {v : Engine δ × Bool}
    (hI : Kept hard I) (hv : I v) : Determined hard b t I (writeBlock b.auxSmba data left i) v := by
  induction left generalizing i v with
  | zero => exact .ret hv
  | succ left ih =>
    unfold writeBlock
    refine (outb_determined hI hv _ (decodeHost_smbBlkDat _) (by decide)
      fun h => absurd h (by decide)).bind fun _ w hw => ?_
    exact ih hw

/-- Reading a block makes nothing of the done bit. -/
theorem readBlock_determined (left : ℕ) {i : ℕ} {data : SmbusData} {v : Engine δ × Bool}
    (hI : Kept hard I) (hv : I v) : Determined hard b t I (readBlock b.auxSmba left i data) v := by
  induction left generalizing i data v with
  | zero => exact .ret hv
  | succ left ih =>
    unfold readBlock
    refine (inb_determined hI hv (decodeHost_smbBlkDat _) (by decide)).bind fun _ w hw => ?_
    exact ih hw

/-- Loading the request leaves an idle engine idle. -/
theorem setupXfer_determined (x : SmbusXfer) (hx : x.smba = b.auxSmba) (hI : Kept hard I) (hv : I v) :
    Determined hard b t I (setupXfer x) v := by
  have hwrite : ∀ {v : Engine δ × Bool} {p : ℕ} {r : HostReg} (a : Byte), I v →
      decodeHost b.auxSmba p = some r → r ≠ .sts → r ≠ .cnt → Determined hard b t I (outb a p) v :=
    fun a hv hport hsts hcnt => outb_determined hI hv a hport hsts fun h => absurd h hcnt
  have hadd : ∀ {v : Engine δ × Bool}, I v →
      Determined hard b t I (outb x.addressByte (smbHstAdd x.smba)) v :=
    fun hv => hwrite _ hv (by rw [hx]; exact decodeHost_smbHstAdd _) (by decide) (by decide)
  have hcmd : ∀ {v : Engine δ × Bool}, I v →
      Determined hard b t I (outb x.command (smbHstCmd x.smba)) v :=
    fun hv => hwrite _ hv (by rw [hx]; exact decodeHost_smbHstCmd _) (by decide) (by decide)
  have hdat0 : ∀ {v : Engine δ × Bool}, I v →
      Determined hard b t I (outb (x.data 0) (smbHstDat0 x.smba)) v :=
    fun hv => hwrite _ hv (by rw [hx]; exact decodeHost_smbHstDat0 _) (by decide) (by decide)
  have hdat1 : ∀ {v : Engine δ × Bool}, I v →
      Determined hard b t I (outb (x.data 1) (smbHstDat1 x.smba)) v :=
    fun hv => hwrite _ hv (by rw [hx]; exact decodeHost_smbHstDat1 _) (by decide) (by decide)
  unfold setupXfer
  cases x.size with
  | quick => exact (hadd hv).bind fun _ w hw => .ret hw
  | byte =>
    refine (hadd hv).bind fun _ w hw => ?_
    cases x.read with
    | true => exact .ret hw
    | false => exact (hcmd hw).bind fun _ w hw => .ret hw
  | byteData =>
    refine (hadd hv).bind fun _ w hw => (hcmd hw).bind fun _ w hw => ?_
    cases x.read with
    | true => exact .ret hw
    | false => exact (hdat0 hw).bind fun _ w hw => .ret hw
  | wordData =>
    refine (hadd hv).bind fun _ w hw => (hcmd hw).bind fun _ w hw => ?_
    cases x.read with
    | true => exact .ret hw
    | false => exact (hdat0 hw).bind fun _ w hw => (hdat1 hw).bind fun _ w hw => .ret hw
  | blockData =>
    refine (hadd hv).bind fun _ w hw => (hcmd hw).bind fun _ w hw => ?_
    cases x.read with
    | true => exact .ret hw
    | false =>
      dsimp only
      split
      · split
        · exact .ret hw
        · refine (hdat0 hw).bind fun _ w hw => ?_
          rw [hx]
          refine (inb_determined hI hw (decodeHost_smbHstCnt _) (by decide)).bind fun _ w hw => ?_
          exact (writeBlock_determined x.data _ hI hw).bind fun _ w hw => .ret hw
      · exact .ret hw
  | other => exact .ret hv

/-- Collecting the answer is determined. -/
theorem fetchXfer_determined (x : SmbusXfer) (hx : x.smba = b.auxSmba) (hI : Kept hard I) (hv : I v) :
    Determined hard b t I (fetchXfer x) v := by
  have hdat0 : ∀ {v : Engine δ × Bool}, I v → Determined hard b t I (inb (smbHstDat0 x.smba)) v :=
    fun hv => inb_determined hI hv (by rw [hx]; exact decodeHost_smbHstDat0 _) (by decide)
  have hdat1 : ∀ {v : Engine δ × Bool}, I v → Determined hard b t I (inb (smbHstDat1 x.smba)) v :=
    fun hv => inb_determined hI hv (by rw [hx]; exact decodeHost_smbHstDat1 _) (by decide)
  unfold fetchXfer
  cases x.size with
  | quick => exact .ret hv
  | byte => exact (hdat0 hv).bind fun _ w hw => .ret hw
  | byteData => exact (hdat0 hv).bind fun _ w hw => .ret hw
  | wordData => exact (hdat0 hv).bind fun _ w hw => (hdat1 hw).bind fun _ w hw => .ret hw
  | blockData =>
    refine (hdat0 hv).bind fun len w hw => ?_
    dsimp only
    split
    · exact .ret hw
    · rw [hx]
      refine (inb_determined hI hw (decodeHost_smbHstCnt _) (by decide)).bind fun _ w hw => ?_
      exact (readBlock_determined _ hI hw).bind fun _ w hw => .ret hw
  | other => exact .ret hv

/-- `piix4_access` on an engine that is idle when it begins. -/
theorem access_determined (x : SmbusXfer) (hx : x.smba = b.auxSmba) (hv : Resting v) :
    Determined hard b t (fun _ => True) (piix4Access x) v := by
  unfold piix4Access accessWith
  refine (setupXfer_determined x hx kept_resting hv).bind fun size w hw => ?_
  cases size with
  | error e => exact .ret trivial
  | ok size =>
    rw [hx]
    refine (outb_determined kept_resting hw _ (decodeHost_smbHstCnt _) (by decide) fun _ => ?_).bind
      fun _ w hw => ?_
    · have hint9 : BitVec.ofNat 8 (enableInt9 &&& 1) = 0#8 := by decide
      rw [hint9, BitVec.add_zero, BitVec.getElem_and]
      simp
    refine (transactionWith_determined patchedResult_forget false hw).bind fun status w _ => ?_
    split
    · exact .ret trivial
    · split
      · exact .ret trivial
      · exact fetchXfer_determined x hx kept_any trivial

end Transfer

end Scene

/-- No interleaving with executions of the hard handler changes the outcome of a master transfer
that begins with the host engine idle: whatever is requested, whatever the device does and however
the handlers run in between, the result and the data are those of the run without them. -/
theorem transfer_undisturbed {δ : Type} (hard : Hardware δ) (b : Board) (t : ℕ) (x : SmbusXfer)
    (s : Scene δ) (hx : x.smba = b.auxSmba) (hsmba : s.st.asf.smba = b.auxSmba)
    (hrouted : getElem s.st.hw.bnksel 7 (fits rfl) = true) (hidle : s.engine.Idle)
    (hhandlers : ∀ j, s.handlers j = piix4AsfIrqHandler) (gaps : ℕ → List ℕ × List ℕ) :
    ∃ r, (∃ y, (piix4Access x).runAlone (Scene.disturbed hard b t) (s, fun _ => ([], [])) = some (r, y)) ∧
      ∃ y, (piix4Access x).runAlone (Scene.disturbed hard b t) (s, gaps) = some (r, y) := by
  have hgood : s.Mastered b := by
    refine ⟨hsmba, hrouted, fun j => ?_⟩
    rw [hhandlers]
    exact irqHandler_harmless
  have hrest : Scene.Resting s.view :=
    ⟨(Engine.forget_idle _).mpr hidle, Engine.forget_forget _⟩
  exact (Scene.access_determined x hx hrest).agree hgood hgood rfl

/-- An engine that finishes a transaction at once, and one it was still busy with when the driver
has looked at it `hidden` times more. -/
def Hardware.lingering : Hardware ℕ where
  sticky := 0
  start e := { e with sts := bit asfHstIntr }
  advance e :=
    if e.sts.getLsbD 0 then
      if e.hidden = 0 then { e with sts := bit asfHstIntr } else { e with hidden := e.hidden - 1 }
    else e
  sticky_done := rfl
  start_forget _ := rfl
  advance_forget e := by
    have hbusy : e.forget.sts.getLsbD 0 = e.sts.getLsbD 0 := by simp [Engine.forget]
    rw [hbusy]
    split
    · by_cases hzero : e.hidden = 0
      · rw [if_pos (show e.forget.hidden = 0 from hzero), if_pos hzero]
        rfl
      · rw [if_neg (show ¬e.forget.hidden = 0 from hzero), if_neg hzero]
        exact Engine.forget_forget { e with hidden := e.hidden - 1 }
    · exact Engine.forget_forget e
  advance_idle e h := if_neg (by simp [h])

/-- The system with the block in master mode, over an engine in the given state. -/
def Scene.mastering (sts : Byte) (hidden : ℕ) : Scene ℕ :=
  { st :=
      { St.loaded with
        hw := { Target.idle with bnksel := bit asfBnkDataEn }
        asf := { Piix4Asf.loaded with smba := 0xb20 } }
    engine :=
      { sts := sts, cnt := 0, cmd := 0, add := 0, dat0 := 0x2a, dat1 := 0, fifo := fun _ => 0, index := 0
        hidden := hidden }
    handlers := fun _ => piix4AsfIrqHandler }

/-- Read a byte. -/
def SmbusXfer.probe : SmbusXfer :=
  { smba := 0xb20, addr := 0x2c, read := true, command := 0, size := .byte, data := fun _ => 0 }

/-- A probe of an address, alone and disturbed. -/
theorem transfer_undisturbed_probe :
    ∃ r, (∃ y, (piix4Access SmbusXfer.probe).runAlone (Scene.disturbed Hardware.lingering Board.described 0)
        (Scene.mastering 0 0, fun _ => ([], [])) = some (r, y)) ∧
      ∃ y, (piix4Access SmbusXfer.probe).runAlone (Scene.disturbed Hardware.lingering Board.described 0)
        (Scene.mastering 0 0, fun n => ([n, 0], [0, 1])) = some (r, y) :=
  transfer_undisturbed Hardware.lingering Board.described 0 SmbusXfer.probe (Scene.mastering 0 0) rfl rfl
    rfl rfl (fun _ => rfl) fun n => ([n, 0], [0, 1])

/-- A transaction left over from before finishes while the transfer clears the status: without a
handler the transfer finds its done bit and gives up, with one it goes ahead. -/
theorem transfer_disturbed :
    ((piix4Access SmbusXfer.probe).runAlone (Scene.disturbed Hardware.lingering Board.described 0)
        (Scene.mastering (bit 0) 4, fun _ => ([], []))).map (fun r => r.1.1) = some (-ebusy) ∧
      ((piix4Access SmbusXfer.probe).runAlone (Scene.disturbed Hardware.lingering Board.described 0)
        (Scene.mastering (bit 0) 4, fun n => if n = 5 then ([0, 0, 0, 0], []) else ([], []))).map
        (fun r => r.1.1) = some 0 := by
  constructor
  · rfl
  · rfl

end HostNotify
