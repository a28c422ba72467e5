import HostNotify.Asf
import HostNotify.Bookkeeping
import HostNotify.Transaction

/-!
# What the code does to its account

`Stance` is an account without the values in it. The code that works on the target block
respects the ledger and leaves its stance as it was, whatever it reads.
-/

namespace HostNotify

open Bits Interleaving

variable {k : Setting} {b : Board} {m : Hand} {c : CoreCall} {v : Estate}

/-- A role with the estate of a callback changed. -/
def Role.onEstate (r : Role) (g : Estate → Estate) : Role :=
  match r with
  | .core c v => .core c (g v)
  | r => r

/-- A change of the estate changes the role only. -/
theorem Hand.onEstate_role (m : Hand) (g : Estate → Estate) :
    m.onEstate g = { m with role := m.role.onEstate g } := by
  cases m with
  | mk role => cases role <;> rfl

/-- What an account says, up to the values of registers. -/
structure Stance where
  role : Role
  asf : Bool
  notify : Bool
  /-- The FCH PM region is held. -/
  held : Bool
  active : Bool
  window : Bool
  ok : Bool
  /-- What is known of the unclaimed block, and whether `pending` is clear for good. -/
  known : Seen → Bool → Prop

/-- The account `m` takes the stance `p`; whatever was changed in DecodeEn is meant to stay. -/
structure Hand.Takes (k : Setting) (p : Stance) (m : Hand) : Prop where
  role : m.role = p.role
  asf : m.asf = p.asf
  notify : m.notify = p.notify
  held : m.region.isSome = p.held
  active : m.active = p.active
  window : m.window = p.window
  ok : m.ok = p.ok
  pm : m.pm = false
  imc : m.imc = false
  known : p.known m.seen m.still
  square : k.Spares → ∀ d, m.region = some d → d.1 = d.2

variable {p : Stance}

namespace Hand.Takes

/-- A stance without locks and region is free. -/
theorem free (h : m.Takes k p) (hasf : p.asf = false) (hnotify : p.notify = false)
    (hheld : p.held = false) : m.Free where
  asf := h.asf.trans hasf
  notify := h.notify.trans hnotify
  region := Option.isSome_eq_false_iff.mp (h.held.trans hheld) |> Option.isNone_iff_eq_none.mp
  pm := h.pm
  imc := h.imc

/-- A stance without the region has none. -/
theorem region_none (h : m.Takes k p) (hheld : p.held = false) : m.region = none := by
  have hsome := h.held.trans hheld
  simpa using hsome

/-- A hand whose stance has the region holds it. -/
theorem region_some (h : m.Takes k p) (hheld : p.held = true) : m.region ≠ none := by
  have hsome := h.held.trans hheld
  intro hnone
  simp [hnone] at hsome

end Hand.Takes

/-! ## Single operations -/

/-- An operation that every account permits and that tells nothing. -/
theorem idle_obeys {o : Op} {P : Hand → Prop} (hallow : ∀ m : Hand, m.allows k b o)
    (hmove : ∀ (m : Hand) r m', m.moves k b o r m' → m' = m) :
    Obeys (ledger k b) P (perform o) fun _ => P :=
  .perform fun m hm => ⟨hallow m, fun r m' h => hmove m r m' h ▸ hm⟩

/-- The mutex may be taken with nothing else in hand, or by probe. -/
theorem lockAsf_obeys (hasf : p.asf = false) (hnotify : p.notify = false)
    (hheld : p.held = false ∨ ∃ c v, p.role = .core c v ∧ v.enabling = true) :
    Obeys (ledger k b) (Hand.Takes k p) (lock .asf) fun _ => Hand.Takes k { p with asf := true } := by
  refine .perform fun m hm => ⟨⟨hm.asf.trans hasf, hm.notify.trans hnotify, hm.pm, hm.imc, ?_⟩, ?_⟩
  · rcases hheld with hheld | ⟨c, v, hrole, hen⟩
    · exact Or.inl (hm.region_none hheld)
    · exact Or.inr ⟨c, v, hm.role.trans hrole, hen⟩
  · rintro r m' rfl
    exact { hm with asf := rfl }

/-- The stance once `piix4_asf_mutex` has been given up. -/
def Stance.unlocked (p : Stance) : Stance :=
  { p with
    asf := false
    active := match p.role with | .thread => p.active | _ => false }

/-- The holder of `piix4_asf_mutex` may give it up. -/
theorem unlockAsf_obeys (hasf : p.asf = true) :
    Obeys (ledger k b) (Hand.Takes k p) (unlock .asf) fun _ => Hand.Takes k p.unlocked := by
  refine .perform fun m hm => ⟨hm.asf.trans hasf, ?_⟩
  rintro r m' rfl
  exact { hm with
    asf := rfl
    active := hm.role ▸ hm.active ▸ rfl }

/-- Whoever is outside both mutexes may take the notify mutex. -/
theorem lockNotify_obeys (hasf : p.asf = false) (hnotify : p.notify = false) (hheld : p.held = false) :
    Obeys (ledger k b) (Hand.Takes k p) (lock .notify) fun _ =>
      Hand.Takes k { p with notify := true } := by
  refine .perform fun m hm => ⟨hm.free hasf hnotify hheld, ?_⟩
  rintro r m' rfl
  exact { hm with notify := rfl }

/-- The holder of the notify mutex may give it up. -/
theorem unlockNotify_obeys (hnotify : p.notify = true) :
    Obeys (ledger k b) (Hand.Takes k p) (unlock .notify) fun _ =>
      Hand.Takes k { p with notify := false, ok := false } := by
  refine .perform fun m hm => ⟨hm.notify.trans hnotify, ?_⟩
  rintro r m' rfl
  exact { hm with notify := rfl, ok := rfl }

/-- What is known of the FCH PM region after asking for it. -/
def Stance.asked (p : Stance) (got : Bool) : Stance :=
  { p with role := p.role.onEstate fun v => { v with granted := got }, held := got }

/-- A change of the estate changes the stance likewise. -/
theorem Hand.Takes.onEstate (h : m.Takes k p) (g : Estate → Estate) :
    (m.onEstate g).Takes k { p with role := p.role.onEstate g } := by
  rw [Hand.onEstate_role]
  exact { h with role := congrArg (Role.onEstate · g) h.role }

/-- The region is got, or it is not. -/
theorem regionRequest_obeys (hnotify : p.notify = false) (hheld : p.held = false) :
    Obeys (ledger k b) (Hand.Takes k p) (piix4Sb800RegionRequest true) fun r m =>
      (r = 0 ∧ m.Takes k (p.asked true)) ∨ (r ≠ 0 ∧ m.Takes k (p.asked false)) := by
  have hgranted : ∀ (m : Hand) x, m.Takes k p → (m.onEstate fun v => { v with granted := x }).Takes k
      { p with role := p.role.onEstate fun v => { v with granted := x } } :=
    fun m x hm => hm.onEstate _
  intro m hm
  refine ⟨⟨hm.notify.trans hnotify, hm.region_none hheld, hm.pm, hm.imc⟩, fun r m₁ hmove => ?_⟩
  cases r with
  | false =>
    obtain rfl : m₁ = m.onEstate fun v => { v with granted := false } := hmove
    have hrefused := hgranted m false hm
    exact Or.inr ⟨by decide, { hrefused with held := hrefused.held.trans hheld }⟩
  | true =>
    obtain ⟨d, rfl⟩ : ∃ d, m₁ = { m with region := some (d, d) } := hmove
    have hm₁ : Hand.Takes k { p with held := true } { m with region := some (d, d) } :=
      { hm with
        held := rfl
        square := fun _ p hp => by
          obtain rfl := Option.some.inj hp
          rfl }
    have hheld₁ : ∀ x, (Hand.onEstate { m with region := some (d, d) }
        fun v => { v with granted := x }).Takes k
          { p with held := true, role := p.role.onEstate fun v => { v with granted := x } } :=
      fun x => hm₁.onEstate _
    refine ⟨trivial, fun r m₂ hmove => ?_⟩
    obtain rfl : m₂ = _ := hmove
    cases r with
    | true => exact Or.inl ⟨rfl, hheld₁ true⟩
    | false =>
      have hm₂ := hheld₁ false
      refine ⟨⟨hm₂.region_some rfl, fun hk p hp => hm₂.square hk p hp⟩, fun _ m₃ hmove => ?_⟩
      obtain rfl : m₃ = _ := hmove
      refine Or.inr ⟨by decide, { hm₂ with held := rfl, square := fun _ _ h => nomatch h }⟩

/-- The region may be given up by its holder. -/
theorem regionRelease_obeys (hheld : p.held = true) :
    Obeys (ledger k b) (Hand.Takes k p) (piix4Sb800RegionRelease true) fun _ =>
      Hand.Takes k { p with held := false } := by
  refine .perform fun m hm => ⟨⟨hm.region_some hheld, hm.square⟩, ?_⟩
  rintro r m' rfl
  exact { hm with held := rfl, square := fun _ _ h => nomatch h }

/-! ## The driver's global -/

/-- What the stance tells about the driver's global. -/
structure Stance.Reads (b : Board) (p : Stance) (a : Piix4Asf) : Prop where
  settings : ∀ c v, p.role = .core c v → a.settings = v.asf
  active : p.active = true → a.active = true
  claimed : a.active = true → a.smba = b.auxSmba ∧ a.useMmio = true

/-- What reading the driver's global adds. -/
def Stance.read (p : Stance) (a : Piix4Asf) : Stance :=
  match p.role with
  | .aux => { p with active := p.active || (p.asf && a.active) }
  | .thread => { p with window := p.window || (p.asf && a.listening) }
  | _ => p

/-- Reading the global adds what it says to the stance. -/
theorem Hand.Takes.read (hm : m.Takes k p) (a : Piix4Asf) : (m.read a).Takes k (p.read a) := by
  cases m with
  | mk role =>
    cases p with
    | mk role' =>
      obtain rfl : role = role' := hm.role
      cases role with
      | aux => exact { hm with active := congrArg₂ or hm.active (congrArg (and · _) hm.asf) }
      | thread => exact { hm with window := congrArg₂ or hm.window (congrArg (and · _) hm.asf) }
      | _ => exact hm

/-- What is read of the global is what the stance says. -/
theorem asf_obeys : Obeys (ledger k b) (Hand.Takes k p) piix4Asf fun a m =>
    p.Reads b a ∧ m.Takes k (p.read a) := by
  refine .perform fun m hm => ⟨trivial, fun a m' hmove => ?_⟩
  obtain ⟨hreads, rfl⟩ := hmove
  refine ⟨⟨?_, ?_, hreads.claimed⟩, hm.read a⟩
  · rw [← hm.role]
    exact hreads.settings
  · rw [← hm.active]
    exact hreads.active

/-- A callback learns nothing new from it. -/
theorem Stance.read_core (hrole : p.role = .core c v) (a : Piix4Asf) : p.read a = p := by
  unfold Stance.read
  rw [hrole]

/-- A callback reads the fields it owns. -/
theorem coreAsf_obeys (hrole : p.role = .core c v) :
    Obeys (ledger k b) (Hand.Takes k p) piix4Asf fun a m =>
      (a.settings = v.asf ∧ (a.active = true → a.smba = b.auxSmba ∧ a.useMmio = true)) ∧
        m.Takes k p :=
  asf_obeys.post fun a _ ⟨hreads, hm⟩ =>
    ⟨⟨hreads.settings c v hrole, hreads.claimed⟩, Stance.read_core hrole a ▸ hm⟩

/-- The stance of a transfer or of the IRQ thread at work. -/
structure Stance.Engaged (p : Stance) : Prop where
  role : p.role = .aux ∨ p.role = .thread
  asf : p.asf = true
  active : p.active = true
  window : p.window = true
  notify : p.notify = false

/-- Whoever is engaged learns nothing from the global. -/
theorem Stance.Engaged.read (h : p.Engaged) (a : Piix4Asf) : p.read a = p := by
  unfold Stance.read
  split
  · next => rw [h.active, Bool.true_or, ← h.active]
  · next => rw [h.window, Bool.true_or, ← h.window]
  · rfl

/-- Whoever is engaged reads that the block is claimed. -/
theorem engagedAsf_obeys (h : p.Engaged) :
    Obeys (ledger k b) (Hand.Takes k p) piix4Asf fun a m =>
      (a.active = true ∧ a.smba = b.auxSmba ∧ a.useMmio = true) ∧ m.Takes k p :=
  asf_obeys.post fun a _ ⟨hreads, hm⟩ =>
    ⟨⟨hreads.active h.active, hreads.claimed (hreads.active h.active)⟩, h.read a ▸ hm⟩

/-- Whoever is engaged may set the flag. -/
theorem engagedListening_obeys (h : p.Engaged) (x : Bool) :
    Obeys (ledger k b) (Hand.Takes k p) (setAsf fun a => { a with listening := x }) fun _ =>
      Hand.Takes k p := by
  refine .perform fun m hm => ⟨Or.inl ⟨hm.asf.trans h.asf, hm.active.trans h.active,
    hm.window.trans h.window, fun _ => rfl⟩, fun _ m' hmove => ?_⟩
  obtain rfl : m' = m.store _ := hmove
  have hsame : m.store (fun a => { a with listening := x }) = m := by
    unfold Hand.store
    rw [hm.role]
    rcases h.role with hrole | hrole <;> rw [hrole]
  rw [hsame]
  exact hm

/-- A callback stores a field it owns. -/
theorem store_obeys {f : Piix4Asf → Piix4Asf} {K : Seen → Bool → Prop}
    (hrole : p.role = .core c v) (htame : Hand.Tame f) (hlawful : (v.store f).Lawful b)
    (hlocked : (f v.asf).active ≠ v.asf.active → p.asf = true)
    (hlisten : (∀ a, a.listening = false → (f a).listening = false) ∨
      (v.enabling = false ∧ (v.registered = true ∨ v.requested = false) ∧ (f v.asf).active = true))
    (hknown : ∀ n st, p.known n st → K (if (f v.asf).active then Seen.nothing else n)
      ((st || (!v.requested && Hand.clears v.asf f)) && !(f v.asf).active)) :
    Obeys (ledger k b) (Hand.Takes k p) (setAsf f) fun _ =>
      Hand.Takes k { p with role := .core c (v.store f), known := K } := by
  refine .perform fun m hm => ⟨Or.inr ⟨c, v, hm.role.trans hrole,
    ⟨htame, hlawful, fun h => hm.asf.trans (hlocked h), hlisten⟩⟩, fun _ m' hmove => ?_⟩
  obtain rfl : m' = m.store _ := hmove
  unfold Hand.store
  rw [hm.role, hrole]
  exact { hm with role := rfl, known := hknown _ _ hm.known }

/-! ## The target block -/

/-- The port is one of the two windows'. -/
def InBlock (b : Board) (port : ℕ) : Prop := Within (b.auxSmba, asfIosize) port

/-- A port of the block is under one of the two windows. -/
theorem InBlock.window {port : ℕ} (h : InBlock b port) :
    Within b.auxWindow port ∨ Within b.asfWindow port := by
  simp only [InBlock, Within, Board.auxWindow, Board.asfWindow] at h ⊢
  omega

/-- Every offset below the block's size is a port of it. -/
theorem inBlock_reg (b : Board) {i : ℕ} (hi : i < asfIosize) : InBlock b (i + b.auxSmba) := by
  simp only [InBlock, Within]
  omega

/-- The ports of the target block's own window are among these. -/
def AsfPorts (b : Board) (ports : ℕ → Prop) : Prop :=
  ∀ i, smbiosize ≤ i → i < asfIosize → ports (i + b.auxSmba)

/-- The block's ports include those of the slave. -/
theorem asfPorts_block (b : Board) : AsfPorts b (InBlock b) := fun _ _ hi => inBlock_reg b hi

/-- The block's ports include those of the window over it. -/
theorem asfPorts_window (b : Board) : AsfPorts b (Within b.asfWindow) := by
  intro i hlo hhi
  simp only [Within, Board.asfWindow, smbiosize, asfIosize] at hlo hhi ⊢
  omega

/-- In this stance these ports may be used, and nothing is said about the registers that such
use could make false. -/
structure Stance.Works (b : Board) (ports : ℕ → Prop) (p : Stance) : Prop where
  asf : AsfPorts b ports
  reaches : ∀ m : Hand, m.role = p.role → m.asf = p.asf → m.active = p.active →
    m.window = p.window → ∀ port, ports port → m.Reaches b port
  loose : ∀ c v, p.role = .core c v → v.asf.active = false → ∀ n n' st, p.known n st → p.known n' st

/-- Whoever is engaged works on the block. -/
theorem Stance.Engaged.works (h : p.Engaged) : p.Works b (InBlock b) where
  asf := asfPorts_block b
  reaches m hrole hasf hactive hwindow port hport := by
    unfold Hand.Reaches
    rw [hrole]
    have hreach := hport.window.imp (fun hw => And.intro hw (hwindow.trans h.window))
      fun hw => And.intro hw (And.intro (hasf.trans h.asf) (hactive.trans h.active))
    rcases h.role with hr | hr <;> rw [hr] <;> exact hreach
  loose c v hrole := by
    rcases h.role with hr | hr <;> exact nomatch hr.symm.trans hrole

/-- A callback reaches the windows that its estate holds. -/
theorem Stance.works_core {ports : ℕ → Prop} (hasf : AsfPorts b ports) (hrole : p.role = .core c v)
    (hlock : p.asf = true) (hheld : v.asfHeld = true)
    (haux : ∀ port, ports port → Within b.asfWindow port ∨ (Within b.auxWindow port ∧ v.auxHeld = true))
    (hloose : v.asf.active = false → ∀ n n' st, p.known n st → p.known n' st) : p.Works b ports where
  asf := hasf
  reaches m hr ha _ _ port hport := by
    unfold Hand.Reaches
    rw [hr, hrole]
    rcases haux port hport with hw | hw
    · exact Or.inr ⟨hw, ha.trans hlock, hheld⟩
    · exact Or.inl hw
  loose c' v' hr := by
    obtain ⟨_, rfl⟩ := Role.core.inj (hrole.symm.trans hr)
    exact hloose

/-- The marks that accounts ignore. -/
def Mark.Plain : Mark → Prop
  | .drainBegin | .drainEnd _ | .armBegin | .nakExit | .served | .errorFlush | .wedgeReset
  | .decoded _ | .transferEnd => True
  | _ => False

/-- The operation works on the block through these ports, without reading the driver's global. -/
def Op.OnBlock (ports : ℕ → Prop) : Op → Prop
  | .inb port => ports port
  | .outb _ port => ports port
  | .usleepRange _ _ => True
  | .synchronizeHardirq => True
  | .dynamicDebug => True
  | .xchgPending v => v = false
  | .mark mk => mk.Plain
  | _ => False

variable {ports : ℕ → Prop}

/-- A write to the block changes nothing the stance speaks of. -/
theorem Hand.Takes.written (hw : p.Works b ports) (hm : m.Takes k p) (x : Byte) (port : ℕ) :
    (m.written b x port).Takes k p := by
  unfold Hand.written
  split
  · next c v r hrole _ =>
    split
    · exact hm
    · next hclear =>
      have hunclaimed : v.asf.active = false := by simpa using hclear
      exact { hm with
        known := hw.loose c v (hm.role.symm.trans hrole) hunclaimed _ _ _ hm.known }
  · exact hm

/-- Such code keeps a working stance. -/
theorem onBlock_obeys {A : Type} {q : Driver A} (hw : p.Works b ports)
    (hq : q.AllOps (Op.OnBlock ports)) :
    Obeys (ledger k b) (Hand.Takes k p) q fun _ => Hand.Takes k p := by
  refine .of_allOps hq fun o m ho hm => ?_
  have hreach : ∀ port, ports port → m.Reaches b port :=
    hw.reaches m hm.role hm.asf hm.active hm.window
  cases o with
  | inb port => exact ⟨hreach port ho, fun r m' hmove => hmove.1 ▸ hm⟩
  | outb x port =>
    refine ⟨hreach port ho, fun r m' hmove => ?_⟩
    obtain rfl : m' = m.written b x port := hmove
    exact hm.written hw x port
  | usleepRange | synchronizeHardirq | dynamicDebug =>
    exact ⟨trivial, fun r m' hmove => (show m' = m from hmove) ▸ hm⟩
  | xchgPending x => exact ⟨ho, fun r m' hmove => (show m' = m from hmove) ▸ hm⟩
  | mark mk =>
    cases mk
    case notified | bootSaved | starting | stopped | registrationFailed => exact absurd ho id
    all_goals exact ⟨trivial, fun r m' hmove => (show m' = m from hmove) ▸ hm⟩
  | _ => exact absurd ho id

/-! ## DecodeEn -/

/-- In this stance the mode bits of DecodeEn may be changed as well. -/
structure Stance.Steers (b : Board) (ports : ℕ → Prop) (p : Stance) : Prop extends p.Works b ports where
  held : p.held = true
  may : p.active = true ∨ ∃ c v, p.role = .core c v

/-- A word that differs in the mode bits at most is what DecodeEn is to become. -/
theorem adopt_self {d d' : BitVec 32} (h : d' &&& ~~~Estate.modeBits = d &&& ~~~Estate.modeBits) :
    Hand.adopt d d' = d' := by
  unfold Hand.adopt
  rw [← h]
  ext j hj
  simp only [BitVec.getElem_or, BitVec.getElem_and, BitVec.getElem_not]
  cases d'[j] <;> cases Estate.modeBits[j] <;> rfl

/-- A dword write of DecodeEn that moves the mode bits at most. -/
theorem iowrite32_obeys (h : p.Steers b ports) {P : Hand → Prop} {d : BitVec 32}
    (hP : ∀ m, P m → m.Takes k p ∧ (k.Spares → ∀ q, m.region = some q →
      d &&& ~~~Estate.modeBits = q.1 &&& ~~~Estate.modeBits)) :
    Obeys (ledger k b) P (iowrite32 d) fun _ => Hand.Takes k p := by
  refine .perform fun m hPm => ?_
  obtain ⟨hm, hsame⟩ := hP m hPm
  refine ⟨⟨hm.region_some h.held, ?_, hsame⟩, fun r m' hmove => ?_⟩
  · rcases h.may with hactive | ⟨c, v, hrole⟩
    · exact Or.inl (hm.active.trans hactive)
    · exact Or.inr ⟨c, v, hm.role.trans hrole, trivial⟩
  · obtain rfl : m' = m.switched d := hmove
    refine { hm with held := ?_, known := ?_, square := ?_ }
    · rw [← hm.held]
      exact Option.isSome_map
    · dsimp only [Hand.switched]
      cases hrole : m.role with
      | core c v =>
        dsimp only
        split
        · exact hm.known
        · next hclear =>
          have hunclaimed : v.asf.active = false := by simpa using hclear
          exact h.loose c v (hm.role.symm.trans hrole) hunclaimed _ _ _ hm.known
      | _ => exact hm.known
    · intro hk q hq
      obtain ⟨q₀, hq₀, rfl⟩ := Option.map_eq_some_iff.mp hq
      have hold := hm.square hk q₀ hq₀
      have hd := hsame hk q₀ hq₀
      dsimp only
      rw [← hold, adopt_self hd]

/-- The two mode bits of DecodeEn change nothing but themselves. -/
theorem modeBits_assignBit {i : ℕ} (hi : i = asfMstrEn ∨ i = asfClkEn) (d : BitVec 32) (set : Bool) :
    assignBit i d set &&& ~~~Estate.modeBits = d &&& ~~~Estate.modeBits := by
  ext j hj
  simp only [Estate.modeBits, BitVec.getElem_and, BitVec.getElem_not, BitVec.getElem_or, getElem_bit,
    getElem_assignBit]
  rcases hi with rfl | rfl
  · by_cases hj : j = 16
    · simp [hj]
    · simp [Ne.symm hj]
  · by_cases hj : j = 17
    · simp [hj]
    · simp [Ne.symm hj]

/-- They may be changed by whoever steers. -/
theorem updateMmio_obeys (h : p.Steers b ports) {i : ℕ} (hi : i = asfMstrEn ∨ i = asfClkEn) (set : Bool) :
    Obeys (ledger k b) (Hand.Takes k p) (piix4AsfUpdateMmio i set) fun _ => Hand.Takes k p := by
  unfold piix4AsfUpdateMmio
  refine .bind (Q := fun d m => m.Takes k p ∧ (k.Spares → ∀ q, m.region = some q → d = q.1))
    (.perform fun m hm => ⟨hm.region_some h.held, fun d m' hmove => ?_⟩) fun d =>
      iowrite32_obeys h fun m hm => ⟨hm.1, fun hk q hq => ?_⟩
  · obtain ⟨rfl, hd⟩ := hmove
    exact ⟨hm, fun hk => hd (Or.inl hk)⟩
  · rw [modeBits_assignBit hi, hm.2 hk q hq]

/-! ## Mode switches -/

/-- A port of the block is read. -/
theorem inb_onBlock {i : ℕ} (hi : i < asfIosize) :
    (inb (i + b.auxSmba)).AllOps (Op.OnBlock (InBlock b)) :=
  ⟨inBlock_reg b hi, fun _ => trivial⟩

/-- A port of the block is written. -/
theorem outb_onBlock {i : ℕ} (hi : i < asfIosize) (x : Byte) :
    (outb x (i + b.auxSmba)).AllOps (Op.OnBlock (InBlock b)) :=
  ⟨inBlock_reg b hi, fun _ => trivial⟩

/-- A plain mark touches no port. -/
theorem mark_onBlock {mk : Mark} (h : mk.Plain) : (mark mk).AllOps (Op.OnBlock ports) :=
  ⟨h, fun _ => trivial⟩

/-- A bit of a port of the block is changed. -/
theorem updateIoport_onBlock {port : ℕ} (h : ports port) (bitno : ℕ) (set : Bool) :
    (piix4AsfUpdateIoport bitno port set).AllOps (Op.OnBlock ports) :=
  Prog.AllOps.bind ⟨h, fun _ => trivial⟩ fun _ => ⟨h, fun _ => trivial⟩

section AsfOnly

variable (h : AsfPorts b ports)
include h

/-- A port of the slave is written. -/
theorem outb_onAsf {i : ℕ} (hlo : smbiosize ≤ i) (hhi : i < asfIosize) (x : Byte) :
    (outb x (i + b.auxSmba)).AllOps (Op.OnBlock ports) :=
  ⟨h i hlo hhi, fun _ => trivial⟩

/-- Routing port 0x07 is a matter of the slave's ports. -/
theorem bnkselDataEn_onAsf (set : Bool) :
    (piix4AsfBnkselDataEn b.auxSmba set).AllOps (Op.OnBlock ports) :=
  Prog.AllOps.bind ⟨h 0x13 (by decide) (by decide), fun _ => trivial⟩ fun _ =>
    outb_onAsf h (by decide) (by decide) _

/-- Clearing the status is a matter of the slave's ports. -/
theorem clearStatus_onAsf : (piix4AsfClearStatus b.auxSmba).AllOps (Op.OnBlock ports) :=
  (outb_onAsf h (i := 0x0D) (by decide) (by decide) _).bind fun _ =>
    (outb_onAsf h (i := 0x0A) (by decide) (by decide) _).bind fun _ =>
      outb_onAsf h (i := 0x0A) (by decide) (by decide) _

/-- Holding the slave off is a matter of the slave's ports. -/
theorem holdOff_onAsf : (holdOff b.auxSmba).AllOps (Op.OnBlock ports) :=
  (updateIoport_onBlock (h 0x09 (by decide) (by decide)) _ _).bind fun _ =>
    (updateIoport_onBlock (h 0x15 (by decide) (by decide)) _ _).bind fun _ =>
      ⟨trivial, fun _ => trivial⟩

end AsfOnly

/-- `piix4_asf_master_mode` stays within the target block's own window. -/
theorem masterMode_obeys (h : p.Steers b ports) :
    Obeys (ledger k b) (Hand.Takes k p) (piix4AsfMasterMode b.auxSmba) fun _ => Hand.Takes k p := by
  have hw := h.toWorks
  have hlis : ports (asfLisAddr b.auxSmba) := h.asf 0x09 (by decide) (by decide)
  have hslv : ports (asfSlvEn b.auxSmba) := h.asf 0x15 (by decide) (by decide)
  unfold piix4AsfMasterMode
  refine .bind (onBlock_obeys hw (updateIoport_onBlock hlis _ _)) fun _ => ?_
  refine .bind (onBlock_obeys hw (updateIoport_onBlock hslv _ _)) fun _ => ?_
  refine .bind (onBlock_obeys hw (updateIoport_onBlock hslv _ _)) fun _ => ?_
  refine .bind (onBlock_obeys hw (outb_onAsf h.asf (by decide) (by decide) _)) fun _ => ?_
  refine .bind (updateMmio_obeys h (Or.inl rfl) true) fun _ => ?_
  exact onBlock_obeys hw (bnkselDataEn_onAsf h.asf true)

/-- `piix4_asf_slave_arm` also uses registers of the auxiliary port's window. -/
theorem slaveArm_obeys (h : p.Steers b (InBlock b)) :
    Obeys (ledger k b) (Hand.Takes k p) (piix4AsfSlaveArm b.auxSmba) fun _ => Hand.Takes k p := by
  have hw := h.toWorks
  have hcnt : InBlock b (smbHstCnt b.auxSmba) := inBlock_reg b (i := 0x02) (by decide)
  have hslv : InBlock b (asfSlvEn b.auxSmba) := inBlock_reg b (i := 0x15) (by decide)
  unfold piix4AsfSlaveArm
  refine .bind (onBlock_obeys hw (mark_onBlock trivial)) fun _ => ?_
  refine .bind (onBlock_obeys hw (outb_onBlock (by decide) _)) fun _ => ?_
  refine .bind (onBlock_obeys hw (clearStatus_onAsf h.asf)) fun _ => ?_
  refine .bind (onBlock_obeys hw (bnkselDataEn_onAsf h.asf false)) fun _ => ?_
  refine .bind (onBlock_obeys hw (outb_onBlock (by decide) _)) fun _ => ?_
  refine .bind (updateMmio_obeys h (Or.inl rfl) false) fun _ => ?_
  refine .bind (updateMmio_obeys h (Or.inr rfl) true) fun _ => ?_
  refine .bind (onBlock_obeys hw (updateIoport_onBlock hcnt _ _)) fun _ => ?_
  refine .bind (onBlock_obeys hw (updateIoport_onBlock hcnt _ _)) fun _ => ?_
  refine .bind (onBlock_obeys hw (updateIoport_onBlock hslv _ _)) fun _ => ?_
  exact onBlock_obeys hw (updateIoport_onBlock hslv _ _)

end HostNotify
