import HostNotify.Accounts

/-!
# Each operation keeps the accounts true

An operation that the account of its thread permits leaves the shared state orderly, moves
the account to one that is true again, and is apart from every other thread.
-/

namespace HostNotify

open Bits Interleaving

variable {k : Setting} {b : Board} {s s' : St} {t u : ℕ} {m : Hand} {c : CoreCall} {v : Estate}

/-- What the step of thread `t` by the operation `o` achieves. -/
structure Kept (k : Setting) (b : Board) (t : ℕ) (m : Hand) (o : Op) (r : o.Ans) (s s' : St) :
    Prop where
  orderly : Orderly k b s'
  account : ∃ m', m.moves k b o r m' ∧ Tie k b t m' s'
  others : ∀ u, u ≠ t → Apart k b u s s'

/-- A step that the accounts do not notice. -/
theorem Alike.kept {o : Op} {r : o.Ans} (h : Alike b s s') (ho : Orderly k b s)
    (ht : Tie k b t m s) (hm : m.moves k b o r m) : Kept k b t m o r s s' where
  orderly := h.toLevel.orderly ho
  account := ⟨m, hm, ht.apart (h.apart t)⟩
  others u _ := h.apart u

/-- A callback owns its estate alone. -/
theorem Tie.owned {P : CoreCall → Estate → Prop} (ht : Tie k b t m s) (hm : m.Owns P) :
    s.life.owner = some t := by
  obtain ⟨c, v, hrole, _⟩ := hm
  exact ht.owner.mpr ⟨c, v, hrole, trivial⟩

/-- Another thread than the callback's does not own the driver. -/
theorem Tie.notOwner {P : CoreCall → Estate → Prop} (ht : Tie k b t m s) (hm : m.Owns P)
    (hu : u ≠ t) : s.life.owner ≠ some u := by
  rw [ht.owned hm]
  exact fun h => hu (Option.some.inj h).symm

/-- Either a callback finds the block unclaimed, or nothing of it has been seen. -/
theorem Tie.sight (ht : Tie k b t m s) :
    (∃ c v, m.role = .core c v ∧ v.asf.active = false) ∨
      (m.seen = Seen.nothing ∧ ∀ c v, m.role = .core c v → v.asf.active = true) := by
  by_cases hown : ∃ c v, m.role = .core c v ∧ v.asf.active = false
  · exact Or.inl hown
  · refine Or.inr ⟨?_, fun c v hrole => ?_⟩
    · by_contra hseen
      obtain ⟨hact, c, v, hrole, _⟩ := ht.unclaimed hseen
      exact hown ⟨c, v, hrole, (ht.claimed hrole).symm.trans hact⟩
    · by_contra hact
      exact hown ⟨c, v, hrole, by simpa using hact⟩

/-! ## Reading -/

/-- A port read moves no control register. -/
theorem Target.read_frame (h : Target) (bus : Byte) (r : Reg) :
    (h.read bus r).2.lisaddr = h.lisaddr ∧ (h.read bus r).2.slven = h.slven ∧
      (h.read bus r).2.bnksel = h.bnksel ∧ (h.read bus r).2.decodeEn = h.decodeEn := by
  cases r with
  | index =>
    simp only [Target.read]
    split <;> simp [Target.readIndex]
  | _ => exact ⟨rfl, rfl, rfl, rfl⟩

/-- A port read leaves everything alike. -/
theorem alike_portRead (b : Board) (s : St) (port : ℕ) : Alike b s (s.portRead b port).2 := by
  cases hport : decode b.auxSmba port with
  | none =>
    rw [St.portRead_host s hport]
    exact .refl b s
  | some reg =>
    rw [St.portRead_reg s hport]
    obtain ⟨hlis, hsl, hbnk, hdec⟩ := Target.read_frame s.hw s.world.bus reg
    exact { Alike.refl b s with lisaddr := hlis, slven := hsl, bnksel := hbnk, decodeEn := hdec }

/-- A port is read. -/
theorem kept_inb {port : ℕ} {r : Byte} (ho : Orderly k b s) (ht : Tie k b t m s)
    (he : exec b t (.inb port) s = some (r, s')) : Kept k b t m (.inb port) r s s' := by
  have hread : s.portRead b port = (r, s') := Option.some.inj he
  have halike : Alike b s s' := by
    obtain rfl : (s.portRead b port).2 = s' := congrArg Prod.snd hread
    exact alike_portRead b s port
  cases hport : decode b.auxSmba port with
  | none => exact halike.kept ho ht ⟨rfl, by simp [hport], by simp [hport], by simp [hport]⟩
  | some reg =>
    rw [St.portRead_reg s hport] at hread
    obtain ⟨rfl, rfl⟩ := Prod.mk.inj hread
    have hshows : m.Owns (fun _ e => e.asleep = false) → m.seen.Shows s.hw s.ghost.touched := by
      rintro ⟨c, v, hrole, hawake⟩
      exact ht.shows ((ht.asleep hrole).trans hawake)
    refine halike.kept ho ht ⟨rfl, ?_⟩
    refine ⟨fun hc hd x hx => ?_, fun hc hd x hx => ?_, fun hc hd x hx => ?_⟩
    · obtain rfl := Option.some.inj (hport.symm.trans hd)
      exact (hshows hc).lisaddr x hx
    · obtain rfl := Option.some.inj (hport.symm.trans hd)
      exact (hshows hc).slven x hx
    · obtain rfl := Option.some.inj (hport.symm.trans hd)
      rw [← (hshows hc).bnksel x hx]
      exact s.hw.bnkselValue_and

/-- Firmware being out of the way, DecodeEn is as the thread last found or wrote it. -/
theorem Tie.word (ht : Tie k b t m s) (hfirm : m.Firm k) (p : BitVec 32 × BitVec 32)
    (hp : m.region = some p) : s.hw.decodeEn = p.1 :=
  ht.decodeEn (ht.untouched hfirm (by simp [hp])) p hp

/-- The operations that only ask. -/
theorem kept_ask {o : Op} {r : o.Ans} (ho : Orderly k b s) (ht : Tie k b t m s) (hs : s' = s)
    (hm : m.moves k b o r m) : Kept k b t m o r s s' :=
  hs ▸ (Alike.refl b s).kept ho ht hm

/-- DecodeEn is read as a word. -/
theorem kept_ioread32 {r : BitVec 32} (ho : Orderly k b s) (ht : Tie k b t m s)
    (he : exec b t .ioread32 s = some (r, s')) : Kept k b t m .ioread32 r s s' := by
  simp only [exec, Option.some.injEq, Prod.mk.injEq] at he
  obtain ⟨rfl, rfl⟩ := he
  exact kept_ask ho ht rfl ⟨rfl, ht.word⟩

/-- A byte of DecodeEn is read. -/
theorem kept_ioread8 {offset : ℕ} {r : Byte} (ho : Orderly k b s) (ht : Tie k b t m s)
    (he : exec b t (.ioread8 offset) s = some (r, s')) :
    Kept k b t m (.ioread8 offset) r s s' := by
  simp only [exec, Option.some.injEq, Prod.mk.injEq] at he
  obtain ⟨rfl, rfl⟩ := he
  refine ⟨ho, ⟨_, ⟨s.hw.decodeEn, s.world.bus, rfl, ht.word, rfl⟩, { ht with
    region := ?_, untouched := ?_, decodeEn := ?_, due := ?_ }⟩, fun u _ => .refl k b u s⟩
  · simpa using ht.region
  · exact fun hfirm hheld => ht.untouched hfirm (by simpa using hheld)
  · intro _ q hq
    obtain ⟨p, -, rfl⟩ := Option.map_eq_some_iff.mp hq
    rfl
  · intro hk q hq
    obtain ⟨p, hp, rfl⟩ := Option.map_eq_some_iff.mp hq
    exact ht.due hk p hp

/-- The driver's global is read. -/
theorem kept_asf {r : Piix4Asf} (ho : Orderly k b s) (ht : Tie k b t m s)
    (he : exec b t .asf s = some (r, s')) : Kept k b t m .asf r s s' := by
  simp only [exec, Option.some.injEq, Prod.mk.injEq] at he
  obtain ⟨rfl, rfl⟩ := he
  have hreads : m.Reads b s.asf := {
    settings := fun c v hrole => congrArg Estate.asf (ht.estate c v hrole)
    active := fun hm => (ht.active hm).1
    claimed := ho.lawful.claimed }
  refine ⟨ho, ⟨m.read s.asf, ⟨hreads, rfl⟩, ?_⟩, fun u _ => .refl k b u s⟩
  unfold Hand.read
  split
  · next hrole =>
    -- a transfer that holds the mutex keeps what it reads of `active`
    exact { ht with
      owner := by simpa [Hand.Owns] using ht.owner
      active := fun hm => by
        rcases Bool.or_eq_true _ _ ▸ hm with hold | hnew
        · exact ht.active hold
        · obtain ⟨hasf, hact⟩ := Bool.and_eq_true _ _ ▸ hnew
          exact ⟨hact, Or.inl ⟨hasf, hrole⟩⟩ }
  · next hrole =>
    exact { ht with
      owner := by simpa [Hand.Owns] using ht.owner
      window := fun hm => by
        rcases Bool.or_eq_true _ _ ▸ hm with hold | hnew
        · exact ht.window hold
        · obtain ⟨_, hlisten⟩ := Bool.and_eq_true _ _ ▸ hnew
          refine ⟨?_, Or.inr hrole⟩
          have hmasked : s.irq.masked = true := by
            simp [IrqLine.masked, ht.thread.mpr hrole]
          rcases ho.listening hlisten with hreg | hreq
          · exact hreg
          · exact absurd ((ho.masked hmasked).symm.trans hreq) (by decide) }
  · exact ht

/-- Whether delivery is permitted is read. -/
theorem kept_deliverOk {r : Bool} (ho : Orderly k b s) (ht : Tie k b t m s)
    (hn : m.notify = true ∧ (m.role = .aux ∨ m.role = .thread)) (he : exec b t .deliverOk s = some (r, s')) :
    Kept k b t m .deliverOk r s s' := by
  simp only [exec, Option.some.injEq, Prod.mk.injEq] at he
  obtain ⟨rfl, rfl⟩ := he
  exact ⟨ho, ⟨{ m with ok := s.deliverOk }, rfl, { ht with ok := fun h => ⟨h, hn⟩ }⟩,
    fun u _ => .refl k b u s⟩

/-! ## Ports and DecodeEn -/

/-- The window of the auxiliary port shares ASFINDEX at most with the target block. -/
theorem decode_auxWindow {port : ℕ} (h : Within b.auxWindow port) :
    decode b.auxSmba port = none ∨ decode b.auxSmba port = some .index := by
  have hall : ∀ i < 9, decode 0 i = none ∨ decode 0 i = some .index := by decide
  obtain ⟨hlo, hhi⟩ : b.auxSmba ≤ port ∧ port < b.auxSmba + 9 := h
  have hport : port = (port - b.auxSmba) + b.auxSmba := by omega
  rw [hport, decode_add]
  exact hall _ (by omega)

/-- A port write leaves the history of DecodeEn and of the callbacks. -/
theorem Ghost.afterWrite_frame (g : Ghost) (h : Target) (x : Byte) (r : Reg) :
    (g.afterWrite t h x r).firmware = g.firmware ∧ (g.afterWrite t h x r).wrote = g.wrote ∧
      (g.afterWrite t h x r).before = g.before ∧ (g.afterWrite t h x r).fenced = g.fenced ∧
      (g.afterWrite t h x r).orphaned = g.orphaned ∧ (g.afterWrite t h x r).boot = g.boot ∧
      (g.afterWrite t h x r).touched = g.touched := by
  cases r with
  | slven =>
    simp only [Ghost.afterWrite]
    split <;> exact ⟨rfl, rfl, rfl, rfl, rfl, rfl, rfl⟩
  | _ => exact ⟨rfl, rfl, rfl, rfl, rfl, rfl, rfl⟩

/-- A write to the slave's registers leaves DecodeEn alone. -/
theorem Target.write_decodeEn (h : Target) (x : Byte) (r : Reg) :
    (h.write x r).decodeEn = h.decodeEn := by
  cases r with
  | slven =>
    simp only [Target.write]
    split <;> rfl
  | _ => rfl

/-- What a write leaves in the control registers is what is remembered of it. -/
theorem Seen.Shows.write {n : Seen} {h : Target} {touched : Bool} (x : Byte) (r : Reg)
    (hn : n.Shows h touched) : (n.write r x).Shows (h.write x r) touched := by
  have hmodes : ∀ v, n.modes = some v → touched = false ∧ (h.write x r).modes = v := by
    rw [Target.modes, Target.write_decodeEn]
    exact hn.modes
  cases r with
  | lisaddr => exact ⟨fun v hv => Option.some.inj hv, hn.slven, hn.bnksel, hmodes⟩
  | slven =>
    have hwrite : (h.write x .slven).lisaddr = h.lisaddr ∧ (h.write x .slven).slven = x ∧
        (h.write x .slven).bnksel = h.bnksel := by
      simp only [Target.write]
      split <;> exact ⟨rfl, rfl, rfl⟩
    refine ⟨fun v hv => ?_, fun v hv => ?_, fun v hv => ?_, hmodes⟩
    · exact hwrite.1.trans (hn.lisaddr v hv)
    · exact hwrite.2.1.trans (Option.some.inj hv)
    · rw [hwrite.2.2]
      exact hn.bnksel v hv
  | bnksel =>
    refine ⟨hn.lisaddr, hn.slven, fun v hv => ?_, hmodes⟩
    obtain rfl := Option.some.inj hv
    simp only [Target.write]
    ext j hj
    simp
  | index | sta | slvsta | rwptr | setrdptr => exact ⟨hn.lisaddr, hn.slven, hn.bnksel, hmodes⟩

/-- Whoever reaches a register of the block other than ASFINDEX excludes the callback in
progress, unless it is that callback, or the block is claimed. -/
theorem Hand.Reaches.exclusive {port : ℕ} {r : Reg} (hreach : m.Reaches b port)
    (ht : Tie k b t m s) (hport : decode b.auxSmba port = some r) (hr : r ≠ .index) :
    s.asf.active = true ∨ m.Owns fun _ _ => True := by
  have hnot : ¬ Within b.auxWindow port := by
    intro h
    rcases decode_auxWindow h with hn | hi
    · exact absurd (hn.symm.trans hport) (by simp)
    · exact hr (Option.some.inj (hport.symm.trans hi))
  unfold Hand.Reaches at hreach
  split at hreach
  · exact hreach.elim
  · exact absurd (hreach.symm.trans hport) (by simp)
  · next c v hrole => exact Or.inr ⟨c, v, hrole, trivial⟩
  · rcases hreach with ⟨h, _⟩ | ⟨_, _, hactive⟩
    · exact absurd h hnot
    · exact Or.inl (ht.active hactive).1

/-- A port write leaves the states level. -/
theorem level_portWrite (b : Board) (t : ℕ) (s : St) (x : Byte) (port : ℕ) :
    Level b s (s.portWrite b t x port) := by
  cases hport : decode b.auxSmba port with
  | none =>
    rw [St.portWrite_host s t x hport]
    exact .refl b s
  | some reg =>
    rw [St.portWrite_reg s t x hport]
    obtain ⟨hfirm, hwrote, hbefore, hfence, horphan, hboot, htouched⟩ :=
      Ghost.afterWrite_frame (t := t) s.ghost s.hw x reg
    refine { Level.refl b s with
      estate := ?_
      decodeEn := Target.write_decodeEn s.hw x reg
      touched := htouched, firmware := hfirm, wrote := hwrote, before := hbefore }
    unfold St.estate
    simp only [hfence, horphan, hboot]

/-- A port is written. -/
theorem kept_outb {x : Byte} {port : ℕ} {r : Unit} (ho : Orderly k b s) (ht : Tie k b t m s)
    (hreach : m.Reaches b port) (he : exec b t (.outb x port) s = some (r, s')) :
    Kept k b t m (.outb x port) r s s' := by
  obtain rfl : s.portWrite b t x port = s' := (Prod.mk.inj (Option.some.inj he)).2
  have hlevel := level_portWrite b t s x port
  cases hport : decode b.auxSmba port with
  | none =>
    rw [St.portWrite_host s t x hport]
    refine kept_ask ho ht rfl ?_
    show m = m.written b x port
    unfold Hand.written
    rw [hport]
    split <;> simp_all
  | some reg =>
    rw [St.portWrite_reg s t x hport] at hlevel ⊢
    have hindex : reg = .index → (s.hw.write x reg).lisaddr = s.hw.lisaddr ∧
        (s.hw.write x reg).slven = s.hw.slven ∧ (s.hw.write x reg).bnksel = s.hw.bnksel := by
      rintro rfl
      exact ⟨rfl, rfl, rfl⟩
    have hothers : ∀ u, u ≠ t → Apart k b u s { s with
        hw := s.hw.write x reg, ghost := s.ghost.afterWrite t s.hw x reg } := by
      intro u hu
      refine hlevel.apart fun howner hact => ?_
      by_cases hreg : reg = .index
      · exact hindex hreg
      · rcases hreach.exclusive ht hport hreg with hclaimed | hown
        · exact absurd (hclaimed.symm.trans hact) (by decide)
        · exact absurd howner (ht.notOwner hown hu)
    refine ⟨hlevel.orderly ho, ⟨m.written b x port, rfl, ?_⟩, hothers⟩
    rcases ht.sight with ⟨c, v, hrole, hact⟩ | ⟨hnothing, hclaimed⟩
    · -- a callback that finds the block unclaimed remembers the value
      have hwritten : m.written b x port = { m with seen := m.seen.write reg x } := by
        unfold Hand.written
        rw [hrole, hport]
        simp [hact]
      rw [hwritten]
      exact ht.level hlevel (fun _ => ⟨(ht.claimed hrole).trans hact, c, v, hrole, trivial⟩)
        fun hawake => by
          rw [hlevel.touched]
          exact (ht.shows hawake).write x reg
    · have hwritten : m.written b x port = { m with seen := Seen.nothing } := by
        rw [← hnothing]
        unfold Hand.written
        split
        · next c v r hrole _ => rw [if_pos (hclaimed c v hrole)]
        · rfl
      rw [hwritten]
      exact ht.level hlevel (fun h => absurd rfl h) fun _ => .nothing _ _

/-- What a bit of DecodeEn is due to be. -/
theorem Ghost.due_getElem (g : Ghost) (j : ℕ) (hj : j < 32) :
    g.due[j] = if j = 17 then g.wrote.2 else if j = 16 then g.wrote.1 else g.firmware[j] := by
  simp only [Ghost.due, getElem_assignBit, eq_comm]

/-- A dword write moves the mode bits of the driver's intent. -/
theorem due_wrote {g : Ghost} (d : BitVec 32) :
    Ghost.due { g with wrote := (getElem d 16 (fits rfl), getElem d 17 (fits rfl)) } = Hand.adopt g.due d := by
  ext j hj
  rw [Ghost.due_getElem]
  simp only [Hand.adopt, Estate.modeBits, BitVec.getElem_or, BitVec.getElem_and, BitVec.getElem_not,
    getElem_bit, Ghost.due_getElem]
  by_cases h17 : j = 17
  · subst h17
    simp
  · by_cases h16 : j = 16
    · subst h16
      simp
    · simp [h16, h17, Ne.symm h16, Ne.symm h17]

/-- DecodeEn is written as a word. -/
theorem kept_iowrite32 {d : BitVec 32} {r : Unit} (ho : Orderly k b s) (ht : Tie k b t m s)
    (hallow : m.allows k b (.iowrite32 d)) (he : exec b t (.iowrite32 d) s = some (r, s')) :
    Kept k b t m (.iowrite32 d) r s s' := by
  obtain rfl : s.writeDecodeEn d = s' := (Prod.mk.inj (Option.some.inj he)).2
  obtain ⟨hheld, hwho, hagree⟩ := hallow
  have hregion : s.region = some t := ht.region.mpr hheld
  obtain ⟨p, hp⟩ := Option.ne_none_iff_exists'.mp hheld
  have hother : ∀ j, (hj : j < 32) → j ≠ 16 → j ≠ 17 → k.Spares →
      d[j] = s.hw.decodeEn[j] := by
    intro j hj h16 h17 hk
    have hbits := congrArg (fun w : BitVec 32 => w[j]) (hagree hk p hp)
    simp only [Estate.modeBits, BitVec.getElem_and, BitVec.getElem_not, BitVec.getElem_or,
      getElem_bit] at hbits
    simp only [ht.word (Or.inl hk) p hp]
    simpa [Ne.symm h16, Ne.symm h17] using hbits
  have horderly : Orderly k b (s.writeDecodeEn d) := {
    lawful := ho.lawful
    rest := ho.rest
    aux := ho.aux
    listening := ho.listening
    enabling := ho.enabling
    masked := ho.masked
    windows := ho.windows
    released := fun _ hnone => by
      have hno : s.region = none := hnone
      rw [hregion] at hno
      cases hno
    decodeEn := fun hk j hj hf => by
      have hold := ho.decodeEn hk j hj hf
      rw [Ghost.due_getElem] at hold ⊢
      show d[j] = _
      by_cases h17 : j = 17
      · subst h17
        rfl
      · by_cases h16 : j = 16
        · subst h16
          rfl
        · rw [if_neg h17, if_neg h16] at hold ⊢
          exact (hother j hj h16 h17 hk).trans hold
    before := ho.before }
  refine ⟨horderly, ⟨m.switched d, rfl, ?_⟩, fun u hu => ?_⟩
  · have hregion' : (m.switched d).region = some (d, Hand.adopt p.2 d) := by
      simp [Hand.switched, hp]
    exact { ht with
      region := by
        rw [hregion']
        exact ⟨fun _ => by simp, fun _ => hregion⟩
      untouched := fun hfirm _ => ht.untouched (by
        rwa [Hand.Firm, Hand.Owns, Hand.switched] at hfirm) hheld
      decodeEn := fun _ q hq => by
        rw [hregion'] at hq
        obtain rfl := Option.some.inj hq
        rfl
      due := fun hk q hq => by
        rw [hregion'] at hq
        obtain rfl := Option.some.inj hq
        refine (due_wrote d).trans ?_
        rw [ht.due hk p hp]
      unclaimed := fun hseen => by
        rcases ht.sight with ⟨c, v, hrole, hact⟩ | ⟨hnothing, hclaimed⟩
        · exact ⟨(ht.claimed hrole).trans hact, c, v, hrole, trivial⟩
        · refine absurd ?_ hseen
          unfold Hand.switched
          split
          · next c v hrole => rw [if_pos (hclaimed c v hrole), hnothing]
          · exact hnothing
      shows := fun hawake => by
        have hold := ht.shows hawake
        unfold Hand.switched
        split
        · next c v hrole =>
          cases hact : v.asf.active with
          | true =>
            rcases ht.sight with ⟨c', v', hrole', hact'⟩ | ⟨hnothing, _⟩
            · obtain ⟨rfl, rfl⟩ := Role.core.inj (hrole.symm.trans hrole')
              exact absurd (hact.symm.trans hact') (by decide)
            · rw [hnothing]
              exact .nothing _ _
          | false =>
            have huntouched := ht.untouched (Or.inr ⟨c, v, hrole, (ht.asleep hrole).symm.trans hawake⟩) hheld
            exact ⟨hold.lisaddr, hold.slven, hold.bnksel, fun x hx => ⟨huntouched, Option.some.inj hx⟩⟩
        · next hrole =>
          have hnothing : m.seen = Seen.nothing := by
            by_contra hseen
            obtain ⟨_, c, v, hcore, _⟩ := ht.unclaimed hseen
            exact hrole c v hcore
          rw [hnothing]
          exact .nothing _ _ }
  · exact { Apart.refl k b u s with
      decodeEn := fun hu' => absurd (Option.some.inj (hu'.symm.trans hregion)) hu
      due := fun _ hu' => absurd (Option.some.inj (hu'.symm.trans hregion)) hu
      shows := fun howner hact _ => by
        rcases hwho with hclaimed | hown
        · exact absurd ((ht.active hclaimed).1.symm.trans hact) (by decide)
        · exact absurd howner (ht.notOwner hown hu) }

/-- A byte of DecodeEn is written. -/
theorem kept_iowrite8 {x : Byte} {offset : ℕ} {r : Unit} (ho : Orderly k b s) (ht : Tie k b t m s)
    (hallow : m.allows k b (.iowrite8 x offset))
    (he : exec b t (.iowrite8 x offset) s = some (r, s')) :
    Kept k b t m (.iowrite8 x offset) r s s' := by
  simp only [exec, Option.some.injEq, Prod.mk.injEq] at he
  obtain ⟨_, rfl⟩ := he
  obtain ⟨hheld, hrole, hagree⟩ := hallow
  have hregion : s.region = some t := ht.region.mpr hheld
  have hmain := ht.main hrole
  obtain ⟨p, hp⟩ := Option.ne_none_iff_exists'.mp hheld
  have hregion' : (m.region.map fun p => (setPmByte p.1 x offset, p.2)) =
      some (setPmByte p.1 x offset, p.2) := by
    rw [hp]
    rfl
  have hmodes : s.ghost.touched = false →
      Target.modes { s.hw with decodeEn := setPmByte s.hw.decodeEn x offset } = s.hw.modes := by
    intro htouched
    rw [ht.decodeEn htouched p hp, Target.modes, Target.modes, ht.decodeEn htouched p hp]
    exact Prod.ext (hagree p hp 16 (by decide) (by decide) (by decide)).1
      (hagree p hp 17 (by decide) (by decide) (by decide)).1
  refine ⟨{ ho with released := fun _ hnone => ?_, decodeEn := fun hk j hj hf => ?_ },
    ⟨_, rfl, { ht with region := ?_, decodeEn := fun htouched q hq => ?_, due := fun hk q hq => ?_
                       untouched := fun hfirm _ => ht.untouched hfirm hheld, shows := fun hawake => ?_ }⟩,
    fun u hu => { Apart.refl k b u s with
      decodeEn := fun hu' => absurd (Option.some.inj (hu'.symm.trans hregion)) hu
      shows := fun _ _ _ => ⟨rfl, rfl, rfl, fun htouched => ⟨htouched, hmodes htouched⟩⟩ }⟩
  · exact absurd (hregion.symm.trans hnone) (Option.some_ne_none t)
  · have hne : j ≠ 19 ∧ j ≠ 20 := by
      rcases hf with hno | hne
      · exact absurd (hmain.symm.trans hno) (by decide)
      · exact hne
    obtain ⟨hbit, hdue⟩ := hagree p hp j hj hne.1 hne.2
    simp only [ht.word (Or.inl hk) p hp, ht.due hk p hp, hbit, hdue hk]
  · simp only [hregion']
    exact ⟨fun _ => Option.some_ne_none _, fun _ => hregion⟩
  · simp only [hregion'] at hq
    obtain rfl := Option.some.inj hq
    simp only [ht.decodeEn htouched p hp]
  · simp only [hregion'] at hq
    obtain rfl := Option.some.inj hq
    exact ht.due hk p hp
  · have hold := ht.shows hawake
    refine ⟨hold.lisaddr, hold.slven, hold.bnksel, fun v hv => ?_⟩
    obtain ⟨htouched, hbits⟩ := hold.modes v hv
    exact ⟨htouched, (hmodes htouched).trans hbits⟩

/-! ## Locks and regions -/

/-- A mutex is taken. -/
theorem kept_lock {l : Lock} {r : Unit} (ho : Orderly k b s) (ht : Tie k b t m s)
    (he : exec b t (.lock l) s = some (r, s')) : Kept k b t m (.lock l) r s s' := by
  simp only [exec, Option.ite_none_right_eq_some, Option.some.injEq, Prod.mk.injEq] at he
  obtain ⟨hfree, _, rfl⟩ := he
  cases l with
  | asf =>
    have hfree' : s.mutex = none := hfree
    refine ⟨{ ho with }, ⟨{ m with asf := true }, rfl, { ht with
      mutex := ⟨fun _ => rfl, fun _ => rfl⟩
      active := fun hm => ?_ }⟩, fun u hu => { Apart.refl k b u s with mutex := ?_, active := ?_ }⟩
    · obtain ⟨hact, hwho⟩ := ht.active hm
      exact ⟨hact, hwho.imp (fun h => ⟨rfl, h.2⟩) id⟩
    · rw [hfree']
      exact ⟨fun h => absurd (Option.some.inj h).symm hu, nofun⟩
    · exact fun _ h => h
  | notify =>
    have hfree' : s.notifyMutex = none := hfree
    refine ⟨{ ho with }, ⟨{ m with notify := true }, rfl, { ht with
      notify := ⟨fun _ => rfl, fun _ => rfl⟩
      ok := fun hm => ⟨(ht.ok hm).1, rfl, (ht.ok hm).2.2⟩ }⟩,
      fun u hu => { Apart.refl k b u s with notify := ?_, ok := fun _ h => h }⟩
    rw [hfree']
    exact ⟨fun h => absurd (Option.some.inj h).symm hu, nofun⟩

/-- A mutex is given up. -/
theorem kept_unlock {l : Lock} {r : Unit} (ho : Orderly k b s) (ht : Tie k b t m s)
    (hallow : m.allows k b (.unlock l)) (he : exec b t (.unlock l) s = some (r, s')) :
    Kept k b t m (.unlock l) r s s' := by
  simp only [exec, Option.some.injEq, Prod.mk.injEq] at he
  obtain ⟨_, rfl⟩ := he
  cases l with
  | asf =>
    have hmine : s.mutex = some t := ht.mutex.mpr hallow
    refine ⟨{ ho with }, ⟨_, rfl, { ht with
      mutex := ⟨nofun, nofun⟩
      active := fun hm => ?_ }⟩, fun u hu => { Apart.refl k b u s with mutex := ?_, active := ?_ }⟩
    · split at hm
      · next hrole => exact ⟨(ht.active hm).1, Or.inr hrole⟩
      · cases hm
    · rw [hmine]
      exact ⟨nofun, fun h => absurd (Option.some.inj h).symm hu⟩
    · exact fun _ h => h
  | notify =>
    have hmine : s.notifyMutex = some t := ht.notify.mpr hallow
    refine ⟨{ ho with }, ⟨{ m with notify := false, ok := false }, rfl, { ht with
      notify := ⟨nofun, nofun⟩, ok := nofun }⟩,
      fun u hu => { Apart.refl k b u s with notify := ?_, ok := fun _ h => h }⟩
    rw [hmine]
    exact ⟨nofun, fun h => absurd (Option.some.inj h).symm hu⟩

end HostNotify
