import HostNotify.SharedPort

/-!
# The callbacks and the shared port

A callback knows what its stores into the driver's global make of its own footing. Enable lays
the port to the master's side, start and resume to the slave's, stop and suspend quiesce it, and
disable gives it back to the firmware.
-/

namespace HostNotify

open Bits Interleaving

variable {b : Board} {w : Wire} {Z : Option (Option Bool) → Prop} {P F : Lane → Prop} {Q : Wire → Prop}
  {c : CoreCall} {g j : Footing} {f : Piix4Asf → Piix4Asf}

/-! ## The driver's global -/

/-- What a callback reads of its own settings. -/
structure Footing.Reads (b : Board) (g : Footing) (a : Piix4Asf) : Prop where
  active : a.active = g.active
  want : a.wantListen = g.want
  resume : a.resumeListen = g.resume
  mmio : a.useMmio = g.mmio
  claimed : g.active = true → a.smba = b.auxSmba ∧ g.mmio = true

/-- `want_listen` is stored. -/
def Footing.wanting (g : Footing) (x : Bool) : Footing := { g with want := x }

/-- Who is active is engaged. -/
theorem Footing.engaged_of (h : g.active = true) : g.engaged = true := by
  unfold Footing.engaged
  rw [h, Bool.true_or]

/-- A store on which neither the claim nor the intent to listen after sleep depends. -/
structure Aloof (f : Piix4Asf → Piix4Asf) : Prop extends Fieldwise f where
  plain : ∀ a, (f a).active = a.active ∧ (f a).listening = a.listening ∧
    (f a).resumeListen = a.resumeListen := by exact fun _ => ⟨rfl, rfl, rfl⟩

namespace Wire

/-- An assignment leaves a callback in its seat. -/
theorem Sits.store (hw : w.Sits (.core c g) Z)
    (hg : ∀ v : Charge, v.footing = g → (v.store f).footing = j) : (w.store f).Sits (.core c j) Z := by
  obtain ⟨v, hrole, hv⟩ := Office.seat_core hw.seat
  unfold Wire.store
  rw [hrole]
  exact ⟨congrArg (fun x => some (Seat.core c x)) (hg v hv), hw.region⟩

/-- An assignment changes what is known of the lane as it changes the lane. -/
theorem Grips.store (hw : w.Grips (.core c g) Z P)
    (hg : ∀ v : Charge, v.footing = g → (v.store f).footing = j) (hP : ∀ d, P d → F (d.store f)) :
    (w.store f).Grips (.core c j) Z F := by
  refine { hw.toSits.store hg with mutex := ?_, lane := fun d hd => ?_ }
  · unfold Wire.store
    split <;> exact hw.mutex
  · obtain ⟨v, hrole, _⟩ := Office.seat_core hw.seat
    unfold Wire.store at hd
    rw [hrole] at hd
    dsimp only at hd
    split at hd
    · obtain ⟨e, he, rfl⟩ := Option.map_eq_some_iff.mp hd
      exact hP e (hw.lane e he)
    · cases hd

/-- What is known of the routing is kept if the block stays engaged. -/
theorem Grips.store_engaged (hw : w.Grips (.core c g) Z P) (hlane : w.lane ≠ none)
    (hg : ∀ v : Charge, v.footing = g → (v.store f).footing = j) :
    (w.store f).lane ≠ none ↔ j.engaged = true := by
  obtain ⟨v, hrole, hv⟩ := Office.seat_core hw.seat
  have hstays : (v.store f).engaged = j.engaged := congrArg Footing.engaged (hg v hv)
  unfold Wire.store
  rw [hrole]
  dsimp only
  rw [hstays]
  cases j.engaged with
  | true => simpa using hlane
  | false => simp

end Wire

namespace Steer

/-- The global is read as it is. -/
theorem settings_obeys (hQ : ∀ w, Q w → w.office.seat = some (.core c g)) :
    Obeys (wiring b) Q piix4Asf fun a w => g.Reads b a ∧ Q w := by
  refine .post asf_obeys fun a w hw => ⟨?_, hw.2⟩
  obtain ⟨v, hrole, rfl⟩ := Office.seat_core (hQ w hw.2)
  have hsettings : a.settings = v.asf := hw.1.settings c v hrole
  have hfield : ∀ φ : Piix4Asf → Bool, φ a.settings = φ v.asf := fun φ => congrArg φ hsettings
  have hactive : a.active = v.asf.active := hfield fun x => x.active
  have hmmio : a.useMmio = v.asf.useMmio := hfield fun x => x.useMmio
  refine ⟨hactive, hfield fun x => x.wantListen, hfield fun x => x.resumeListen, hmmio, fun hg => ?_⟩
  obtain ⟨hsmba, hwindow⟩ := hw.1.claimed (hactive.trans hg)
  exact ⟨hsmba, hmmio.symm.trans hwindow⟩

/-- Outside the mutex the global is read as it is. -/
theorem settingsOut_obeys : Obeys (wiring b) (Wire.Sits (.core c g) Z) piix4Asf fun a w =>
    g.Reads b a ∧ w.Sits (.core c g) Z :=
  settings_obeys fun _ hw => hw.seat

/-- Inside the mutex the global is read as it is. -/
theorem settingsIn_obeys : Obeys (wiring b) (Wire.Inside (.core c g) Z P) piix4Asf fun a w =>
    g.Reads b a ∧ w.Inside (.core c g) Z P :=
  settings_obeys fun _ hw => hw.seat

/-- An aloof store without the mutex. -/
theorem aloofOut_obeys (hf : Aloof f) (hg : ∀ v : Charge, v.footing = g → (v.store f).footing = j) :
    Obeys (wiring b) (Wire.Sits (.core c g) Z) (setAsf f) fun _ => Wire.Sits (.core c j) Z := by
  refine .perform fun w hw => ⟨?_, fun r w' hmove => ?_⟩
  · obtain ⟨v, hrole, _⟩ := Office.seat_core hw.seat
    exact Or.inr ⟨c, v, hrole, hf.toFieldwise, .plain hf.plain⟩
  · obtain rfl : w' = _ := hmove
    exact hw.store hg

/-- An aloof store with the mutex. -/
theorem aloofIn_obeys (hf : Aloof f) (hg : ∀ v : Charge, v.footing = g → (v.store f).footing = j)
    (hengaged : j.engaged = true) (hP : ∀ d, P d → F (d.store f)) :
    Obeys (wiring b) (Wire.Inside (.core c g) Z P) (setAsf f) fun _ => Wire.Inside (.core c j) Z F := by
  refine .perform fun w hw => ⟨?_, fun r w' hmove => ?_⟩
  · obtain ⟨v, hrole, _⟩ := Office.seat_core hw.seat
    exact Or.inr ⟨c, v, hrole, hf.toFieldwise, .plain hf.plain⟩
  · obtain rfl : w' = _ := hmove
    exact { hw.toGrips.store hg hP with engaged := (hw.toGrips.store_engaged hw.engaged hg).mpr hengaged }

/-- Whoever holds the mutex may store any field while no drain is in progress, as long as a system
that sleeps remembers to listen. -/
theorem storeLocked_obeys (hf : Fieldwise f) (hg : ∀ v : Charge, v.footing = g → (v.store f).footing = j)
    (hdrain : ∀ d, P d → d.draining = false)
    (hpledged : j.active = true → j.asleep = true → j.resume = true) (hP : ∀ d, P d → F (d.store f)) :
    Obeys (wiring b) (Wire.Inside (.core c g) Z P) (setAsf f) fun _ w =>
      w.Grips (.core c j) Z F ∧ (w.lane ≠ none ↔ j.engaged = true) := by
  refine .perform fun w hw => ⟨?_, fun r w' hmove => ?_⟩
  · obtain ⟨v, hrole, hv⟩ := Office.seat_core hw.seat
    obtain ⟨d, hd, hPd⟩ := hw.some
    refine Or.inr ⟨c, v, hrole, hf, .locked d hd (hdrain d hPd) fun ha hs => ?_⟩
    have hfooting := hg v hv
    exact (congrArg Footing.resume hfooting).trans
      (hpledged ((congrArg Footing.active hfooting).symm.trans ha)
        ((congrArg Footing.asleep hfooting).symm.trans hs))
  · obtain rfl : w' = _ := hmove
    exact ⟨hw.toGrips.store hg hP, hw.toGrips.store_engaged hw.engaged hg⟩

/-- The block stays engaged. -/
theorem storeInside_obeys (hf : Fieldwise f) (hg : ∀ v : Charge, v.footing = g → (v.store f).footing = j)
    (hdrain : ∀ d, P d → d.draining = false)
    (hpledged : j.active = true → j.asleep = true → j.resume = true) (hengaged : j.engaged = true)
    (hP : ∀ d, P d → F (d.store f)) :
    Obeys (wiring b) (Wire.Inside (.core c g) Z P) (setAsf f) fun _ => Wire.Inside (.core c j) Z F :=
  .post (storeLocked_obeys hf hg hdrain hpledged hP) fun _ _ hw => { hw.1 with engaged := hw.2.mpr hengaged }

end Steer

/-! ## Returning -/

/-- A callback may return. -/
def Wire.Retires (c : CoreCall) (w : Wire) : Prop :=
  ∃ g, w.Sits (.core c g) Loose ∧ (c = .suspend → g.active = true → g.resume = true)

namespace Steer

/-- A callback that may retire returns. -/
theorem coreDone_obeys : Obeys (wiring b) (Wire.Retires c) (perform (.coreDone c)) fun _ _ => True := by
  refine .perform fun w hw => ⟨?_, fun _ _ _ => trivial⟩
  obtain ⟨g, hsits, hsuspend⟩ := hw
  obtain ⟨v, hrole, rfl⟩ := Office.seat_core hsits.seat
  exact ⟨v, hrole, hsuspend⟩

/-- All but suspend may retire whenever they hold nothing. -/
theorem retires (hc : c ≠ .suspend) (hw : w.Sits (.core c g) Loose) : w.Retires c :=
  ⟨g, hw, fun h => absurd h hc⟩

/-- Registering the adapter and taking it away leaves the port alone. -/
theorem muteCall_obeys {p : Driver Unit} (hc : c ≠ .suspend) (hp : p.AllOps (Op.Mute b)) :
    Obeys (wiring b) (Wire.Sits (.core c g) Loose) (p >>= fun _ => perform (.coreDone c)) fun _ _ => True :=
  .bind (mute_obeys hp) fun _ => .pre coreDone_obeys fun _ hw => retires hc hw

end Steer

/-! ## Quiescing -/

namespace Lane

/-- The slave does not listen, and no drain is in progress. -/
structure Still (d : Lane) : Prop where
  draining : d.draining = false
  listening : d.listening = false

/-- The next read-out starts at the first byte, too. -/
structure Silent (d : Lane) : Prop extends Still d where
  ptr : d.ptr = .start

/-- A silent lane may be left. -/
theorem Silent.idle {d : Lane} {claims : Prop} (h : d.Silent) : d.Idle claims :=
  ⟨h.draining, fun hl => absurd (hl.symm.trans h.listening) (by decide), fun _ _ => h.ptr⟩

/-- A block that is being claimed does not listen. -/
theorem Found.still {d : Lane} (h : d.Found (.core c g)) (henabling : g.enabling = true) : d.Still := by
  refine ⟨h.idle.draining, ?_⟩
  by_contra hlisten
  exact absurd (henabling.symm.trans ((h.core _ _ rfl).2 ((Bool.not_eq_false _).mp hlisten)).2) (by decide)

/-- A still lane is idle where nothing is claimed. -/
theorem Still.idle {d : Lane} {claims : Prop} (h : d.Still) (hclaims : ¬ claims) : d.Idle claims :=
  ⟨h.draining, fun hl => absurd (hl.symm.trans h.listening) (by decide), fun _ hc => absurd hc hclaims⟩

end Lane

/-- An aloof assignment leaves the lane still. -/
theorem Aloof.still {d : Lane} (hf : Aloof f) (hd : d.Still) : (d.store f).Still :=
  ⟨hd.draining, ((hf.plain _).2.1).trans hd.listening⟩

namespace Steer

/-- A silent lane is left with the mutex. -/
theorem unlockSilent_obeys {q : Seat} : Obeys (wiring b) (Wire.Inside q Z Lane.Silent) (unlock .asf) fun _ =>
    Wire.Sits q Z :=
  .pre unlock_obeys fun _ hw => hw.mono (fun _ h => h) fun _ hd => hd.idle

/-- A board with MMIO reads as one. -/
theorem mmioIn_obeys (hmmio : g.mmio = true) : Obeys (wiring b) (Wire.Inside (.core c g) Z P) piix4Asf fun a w =>
    a.useMmio = true ∧ w.Inside (.core c g) Z P :=
  .post settingsIn_obeys fun _ _ hw => ⟨hw.1.mmio.trans hmmio, hw.2⟩

/-- The region is given up before the mutex. -/
theorem letGo_obeys (hmmio : g.mmio = true) :
    Obeys (wiring b) (Wire.Inside (.core c g) Grasped P)
      (piix4Asf >>= fun a => piix4Sb800RegionRelease a.useMmio) fun _ => Wire.Inside (.core c g) Loose P :=
  .bind (mmioIn_obeys hmmio) fun a => .pure_pre fun ha => by
    rw [ha]
    exact releaseInside_obeys

/-- `piix4_asf_quiesce` takes the slave off the bus and the pointer to the first byte. -/
theorem quiesce_obeys (hengaged : g.engaged = true) :
    Obeys (wiring b) (Wire.Inside (.core c g) Z fun d => d.draining = false) (piix4AsfQuiesce b.auxSmba)
      fun _ => Wire.Inside (.core c (g.wanting false)) Z Lane.Silent := by
  let P₁ (d : Lane) : Prop := d.draining = false ∧ d.ptr = .start
  have hinert : ∀ {x : Bool}, Aloof fun a => { a with wantListen := x } := fun {x} =>
    {}
  have hpending : Obeys (wiring b) (Wire.Inside (.core c (g.wanting false)) Z Lane.Silent)
      (setAsf fun a => { a with pending := false }) fun _ =>
        Wire.Inside (.core c (g.wanting false)) Z Lane.Silent :=
    aloofIn_obeys {}
      (fun v hv => hv) hengaged fun d hd => ⟨⟨hd.draining, hd.listening⟩, hd.ptr⟩
  unfold piix4AsfQuiesce
  refine .bind (aloofIn_obeys (j := g.wanting false) (F := fun d => d.draining = false) hinert ?_ hengaged
    fun d hd => hd) fun _ => ?_
  · rintro v rfl
    rfl
  refine .bind (updateListn_obeys (F := fun d => d.draining = false) fun d hd => hd) fun _ => ?_
  refine .bind (updateIntr_obeys (F := fun d => d.draining = false) fun d y hd _ => hd) fun _ => ?_
  refine .bind (updateRst_obeys (F := P₁) fun d hd => ⟨hd, rfl⟩) fun _ => .bind clearStatus_obeys fun _ => ?_
  refine .bind (setListening_obeys (q := .core c (g.wanting false)) (F := Lane.Silent) hengaged false
    fun d hd => ⟨hd.1, ⟨hd.1, rfl⟩, hd.2⟩) fun _ => ?_
  refine .bind settingsIn_obeys fun a => .pure_pre fun _ => ?_
  dsimp only
  split
  · exact .bind (muteOp_obeys trivial) fun _ => hpending
  · exact hpending

/-- The critical section of stop silences the lane. -/
theorem stopLocked_obeys (hengaged : g.engaged = true) (hmmio : g.mmio = true) :
    Obeys (wiring b) (Wire.Inside (.core c g) Loose fun d => d.draining = false) (stopLocked b.auxSmba) fun _ =>
      Wire.Inside (.core c (g.wanting false)) Loose Lane.Silent := by
  refine .bind (quiesce_obeys hengaged) fun _ => .bind (mmioIn_obeys hmmio) fun a => .pure_pre fun ha => ?_
  rw [ha]
  refine .bind requestInside_obeys fun r => ?_
  split
  · next hgot =>
    refine .pre (P := Wire.Inside (.core c (g.wanting false)) Grasped Lane.Silent) ?_ fun w hw =>
      hw.mono (fun _ h => h hgot) fun _ hd => hd
    refine .bind (masterMode_obeys (F := Lane.Silent) fun d hd => ⟨⟨hd.draining, hd.listening⟩, rfl⟩) fun _ => ?_
    refine .pre (letGo_obeys hmmio) fun w hw => hw.mono (fun m hm => ?_) fun _ hd => hd
    rw [hm]
    exact nofun
  · exact .ret fun w hw => hw.mono (fun _ _ => trivial) fun _ hd => hd

/-- `piix4_asf_stop` on a claimed block. -/
theorem stopActive_obeys (hactive : g.active = true) :
    Obeys (wiring b) (Wire.Sits (.core c g) Loose) piix4AsfStop fun _ =>
      Wire.Sits (.core c (g.wanting false)) Loose := by
  have hengaged := Footing.engaged_of hactive
  have hdone : Obeys (wiring b) (Wire.Sits (.core c (g.wanting false)) Loose) (do
      lock .notify
      perform (.setDeliverOk false)
      unlock .notify : Driver Unit) fun _ => Wire.Sits (.core c (g.wanting false)) Loose :=
    mute_obeys ⟨trivial, fun _ => ⟨trivial, fun _ => ⟨trivial, fun _ => trivial⟩⟩⟩
  have hbody : Obeys (wiring b) (Wire.Sits (.core c g) Loose) stopBody fun _ =>
      Wire.Sits (.core c (g.wanting false)) Loose := by
    refine .bind settingsOut_obeys fun a => .pure_pre fun ha => ?_
    obtain ⟨hsmba, hmmio⟩ := ha.claimed hactive
    dsimp only
    rw [hsmba]
    refine .bind settingsOut_obeys fun a' => .pure_pre fun ha' => ?_
    rw [if_neg (by rw [ha'.active, hactive]; decide)]
    refine .bind (lockCore_obeys hengaged) fun _ => ?_
    refine .bind (.pre (stopLocked_obeys (c := c) hengaged hmmio) fun w hw => ?_) fun _ => ?_
    · exact hw.mono (fun _ h => h) fun d hd => hd.idle.draining
    refine .bind unlockSilent_obeys fun _ => ?_
    refine .bind settingsOut_obeys fun a'' => .pure_pre fun _ => ?_
    split
    · refine .bind (muteOp_obeys trivial) fun _ => .bind (aloofOut_obeys {} fun v hv => hv) fun _ => hdone
    · exact hdone
  exact .bind hbody fun _ => muteOp_obeys trivial

/-- Stop as a whole keeps to the wiring. -/
theorem stop_obeys : Obeys (wiring b) (Wire.Sits (.core .stop g) Loose) (Call.body b (.core .stop)) fun _ _ => True := by
  refine .bind (Q := fun _ => Wire.Retires .stop) ?_ fun _ => coreDone_obeys
  cases hactive : g.active with
  | true => exact .post (stopActive_obeys hactive) fun _ w hw => retires nofun hw
  | false =>
    refine .bind (Q := fun _ => Wire.Retires .stop) ?_ fun _ => muteOp_obeys trivial
    refine .bind settingsOut_obeys fun a => .pure_pre fun _ => .bind settingsOut_obeys fun a' => .pure_pre fun ha => ?_
    rw [if_pos (by rw [ha.active, hactive]; rfl)]
    exact .ret fun w hw => retires nofun hw

/-! ## Listening -/

/-- The slave is armed, if the region can be had. -/
theorem startLocked_obeys (hengaged : g.engaged = true) (hactive : g.active = true) (hmmio : g.mmio = true)
    (hresume : g.resume = false) :
    Obeys (wiring b) (Wire.Inside (.core c g) Loose (Lane.Found (.core c g))) (startLocked b.auxSmba) fun _ =>
      Wire.Inside (.core c (g.wanting true)) Loose fun d => d.Idle True := by
  let P₁ (d : Lane) : Prop := (d.Rewound ∧ d.want = true) ∧ d.Idle True
  refine .bind (aloofIn_obeys (j := g.wanting true) (F := P₁)
    {} ?_ hengaged fun d hd => ?_)
    fun _ => ?_
  · rintro v rfl
    rfl
  · have hptr : d.ptr = .start := hd.idle.rewound ((hd.core _ _ rfl).1.trans hresume) hactive
    exact ⟨⟨⟨⟨hd.idle.draining, fun _ => rfl⟩, hptr⟩, rfl⟩, hd.idle.draining, hd.idle.listening, fun _ _ => hptr⟩
  refine .bind (mmioIn_obeys hmmio) fun a => .pure_pre fun ha => ?_
  rw [ha]
  refine .bind requestInside_obeys fun r => ?_
  split
  · next hgot =>
    refine .bind (.pre (setArmed_obeys (q := .core c (g.wanting true)) hengaged)
      fun w hw => hw.mono (fun _ h => h hgot) fun d hd => hd.1) fun _ => ?_
    refine .bind armed_obeys fun _ => .post (letGo_obeys hmmio) fun _ w hw => hw.mono (fun _ h => h) fun d hd => hd.idle
  · exact .ret fun w hw => hw.mono (fun _ _ => trivial) fun d hd => hd.2

/-- Waking up, the slave is reset before it is armed. -/
theorem resumeLocked_obeys (hengaged : g.engaged = true) (hmmio : g.mmio = true) :
    Obeys (wiring b) (Wire.Inside (.core c g) Loose (Lane.Found (.core c g))) (resumeLocked b.auxSmba) fun _ =>
      Wire.Inside (.core c (g.wanting true)) Loose fun d => d.Idle (g.active = true) := by
  let P₁ (d : Lane) : Prop := d.want = true ∧ d.Idle (g.active = true)
  refine .bind (aloofIn_obeys (j := g.wanting true) (F := P₁)
    {} ?_ hengaged fun d hd => ?_)
    fun _ => ?_
  · rintro v rfl
    rfl
  · exact ⟨rfl, hd.idle.draining, hd.idle.listening, hd.idle.rewound⟩
  refine .bind (mmioIn_obeys hmmio) fun a => .pure_pre fun ha => ?_
  rw [ha]
  refine .bind requestInside_obeys fun r => ?_
  split
  · next hgot =>
    refine .pre (P := Wire.Inside (.core c (g.wanting true)) Grasped P₁) ?_ fun w hw =>
      hw.mono (fun _ h => h hgot) fun _ hd => hd
    refine .bind (updateRst_obeys (F := fun d => d.Rewound ∧ d.want = true) fun d hd => ?_) fun _ => ?_
    · exact ⟨⟨⟨hd.2.draining, fun _ => hd.1⟩, rfl⟩, hd.1⟩
    refine .bind (outb_obeys (F := fun d => d.Rewound ∧ d.want = true)
      (decode_asfSlvSta _) nofun fun _ hd => hd) fun _ => ?_
    refine .bind (setArmed_obeys (q := .core c (g.wanting true)) hengaged) fun _ => .bind armed_obeys fun _ => ?_
    exact .post (letGo_obeys hmmio) fun _ w hw => hw.mono (fun _ h => h) fun d hd => hd.idle
  · exact .ret fun w hw => hw.mono (fun _ _ => trivial) fun d hd => hd.2

/-- Start as a whole keeps to the wiring. -/
theorem start_obeys (hresume : g.resume = false) :
    Obeys (wiring b) (Wire.Sits (.core .start g) Loose) (Call.body b (.core .start)) fun _ _ => True := by
  refine .bind (Q := fun _ => Wire.Retires .start) ?_ fun _ => coreDone_obeys
  refine .bind (muteOp_obeys trivial) fun _ => ?_
  refine .bind settingsOut_obeys fun a => .pure_pre fun ha => .bind settingsOut_obeys fun a' => .pure_pre fun ha' => ?_
  split
  · exact .ret fun w hw => retires nofun hw
  · next hskip =>
    have hactive : g.active = true := by
      rw [ha'.active] at hskip
      simpa using hskip
    have hengaged := Footing.engaged_of hactive
    obtain ⟨hsmba, hmmio⟩ := ha.claimed hactive
    rw [hsmba]
    refine .bind (muteOp_obeys trivial) fun _ => .bind (muteOp_obeys trivial) fun _ => ?_
    refine .bind (muteOp_obeys trivial) fun _ => .bind (lockCore_obeys hengaged) fun _ => ?_
    refine .bind (startLocked_obeys hengaged hactive hmmio hresume) fun _ => ?_
    refine .post (.pre (unlock_obeys (q := .core .start (g.wanting true))) fun w hw => ?_) fun _ w hw => retires nofun hw
    refine hw.mono (fun _ h => h) fun d hd => ⟨hd.draining, hd.listening, fun hr _ => hd.rewound hr trivial⟩

/-- Resume as a whole keeps to the wiring. -/
theorem resume_obeys : Obeys (wiring b) (Wire.Sits (.core .resume g) Loose) (Call.body b (.core .resume))
    fun _ _ => True := by
  refine .bind (Q := fun _ => Wire.Retires .resume) ?_ fun _ => coreDone_obeys
  refine .bind settingsOut_obeys fun a => .pure_pre fun ha => .bind settingsOut_obeys fun a' => .pure_pre fun ha' => ?_
  refine .bind settingsOut_obeys fun a'' => .pure_pre fun _ => ?_
  split
  · exact .ret fun w hw => retires nofun hw
  · next hskip =>
    have hactive : g.active = true := by
      rw [ha'.active] at hskip
      have hboth : g.active = true ∧ a''.resumeListen = true := by simpa using hskip
      exact hboth.1
    have hengaged := Footing.engaged_of hactive
    obtain ⟨hsmba, hmmio⟩ := ha.claimed hactive
    rw [hsmba]
    refine .bind (lockCore_obeys hengaged) fun _ => .bind (resumeLocked_obeys hengaged hmmio) fun _ => ?_
    exact .post (unlock_obeys (q := .core .resume (g.wanting true))) fun _ w hw => retires nofun hw

/-- A device that is put to sleep remembers that it listens. -/
theorem suspend_obeys (hwant : g.active = true → g.want = true) :
    Obeys (wiring b) (Wire.Sits (.core .suspend g) Loose) (Call.body b (.core .suspend)) fun _ _ => True := by
  refine .bind (Q := fun _ => Wire.Retires .suspend) ?_ fun _ => coreDone_obeys
  refine .bind settingsOut_obeys fun a => .pure_pre fun ha => .bind settingsOut_obeys fun a' => .pure_pre fun ha' => ?_
  split
  · next hskip =>
    rw [ha'.active] at hskip
    refine .ret fun w hw => ⟨g, hw, fun _ hactive => ?_⟩
    rw [hactive] at hskip
    cases hskip
  · next hskip =>
    have hactive : g.active = true := by
      rw [ha'.active] at hskip
      simpa using hskip
    have hengaged := Footing.engaged_of hactive
    let j : Footing := { g with resume := true }
    rw [(ha.claimed hactive).1]
    refine .bind (lockCore_obeys hengaged) fun _ => ?_
    refine .bind (Q := fun _ => Wire.Inside (.core .suspend (j.wanting false)) Loose Lane.Silent) ?_ fun _ => ?_
    · refine .bind settingsIn_obeys fun r => .pure_pre fun hr => ?_
      dsimp only
      rw [hr.want, hwant hactive]
      refine .bind (storeInside_obeys (j := j) (F := fun d => d.draining = false)
        {} ?_ (fun d hd => hd.idle.draining) ?_ hengaged
        fun d hd => hd.idle.draining) fun _ => ?_
      · rintro v rfl
        rfl
      · exact fun _ _ => rfl
      refine .bind settingsIn_obeys fun r' => .pure_pre fun hr' => ?_
      rw [if_pos (hr'.want.trans (hwant hactive))]
      exact quiesce_obeys hengaged
    · exact .post unlockSilent_obeys fun _ w hw => ⟨_, hw, fun _ _ => rfl⟩

end Steer

/-! ## Giving the block back -/

/-- A callback that holds the mutex of a block it no longer claims. -/
structure Wire.Yields (c : CoreCall) (g : Footing) (Z : Option (Option Bool) → Prop) (w : Wire) : Prop
    extends Wire.Grips (.core c g) Z Lane.Still w where
  engaged : g.engaged = true → w.lane ≠ none

namespace Steer

/-- A write with the mutex held does not make a still slave listen. -/
theorem outbYields_obeys {v : Byte} {port : ℕ} {reg : Reg} (hport : decode b.auxSmba port = some reg)
    (hindex : reg ≠ .index) :
    Obeys (wiring b) (Wire.Yields c g Z) (outb v port) fun _ => Wire.Yields c g Z := by
  have hstill : ∀ d : Lane, d.Still → (d.write v reg).Still := fun d hd => by
    cases reg <;> exact ⟨hd.draining, hd.listening⟩
  refine .perform fun w hw => ⟨⟨fun h => ?_, fun _ _ _ => hw.mutex⟩, fun r w' hmove => ?_⟩
  · exact absurd (Option.some.inj (hport.symm.trans h)) hindex
  · obtain rfl : w' = w.written b v port := hmove
    unfold Wire.written
    rw [hport]
    refine { hw.toGrips.onLane hstill with engaged := fun he => ?_ }
    simpa [Wire.onLane] using hw.engaged he

/-- Who yields the block reads the global as it is. -/
theorem settingsYields_obeys : Obeys (wiring b) (Wire.Yields c g Z) piix4Asf fun a w =>
    g.Reads b a ∧ w.Yields c g Z :=
  settings_obeys fun _ hw => hw.seat

/-- Restoring the boot values, with the region held. -/
theorem restoreBootState_obeys : Obeys (wiring b) (Wire.Yields c g Grasped) (piix4AsfRestoreBootState b.auxSmba)
    fun _ => Wire.Yields c g Grasped := by
  have hclear : Obeys (wiring b) (Wire.Yields c g Grasped) (piix4AsfClearStatus b.auxSmba) fun _ =>
      Wire.Yields c g Grasped :=
    .bind (outbYields_obeys (decode_asfSlvSta _) nofun) fun _ =>
      .bind (outbYields_obeys (decode_asfSta _) nofun) fun _ => outbYields_obeys (decode_asfSta _) nofun
  refine .bind settingsYields_obeys fun a => .pure_pre fun _ => ?_
  refine .bind (outbYields_obeys (decode_asfSlvEn _) nofun) fun _ => ?_
  refine .bind settingsYields_obeys fun a => .pure_pre fun _ => ?_
  refine .bind (outbYields_obeys (decode_asfLisAddr _) nofun) fun _ => ?_
  refine .bind settingsYields_obeys fun a => .pure_pre fun _ => ?_
  refine .bind (outbYields_obeys (decode_asfDataBnkSel _) nofun) fun _ => .bind hclear fun _ => ?_
  refine .bind settingsYields_obeys fun a => .pure_pre fun _ => ?_
  refine .bind (outbYields_obeys (decode_asfSlvEn _) nofun) fun _ => .bind (muteOp_obeys trivial) fun reg => ?_
  refine .bind settingsYields_obeys fun a => .pure_pre fun _ => ?_
  refine .perform fun w hw => ⟨hw.region, fun r w' hmove => ?_⟩
  obtain rfl : w' = _ := hmove
  refine { hw with region := ?_ }
  obtain ⟨m, hm⟩ := Option.ne_none_iff_exists'.mp hw.region
  rw [hm]
  exact nofun

/-- `active` is cleared before the firmware's settings are written back. -/
theorem unclaimLocked_obeys (hmmio : g.mmio = true) :
    Obeys (wiring b)
      (Wire.Inside (.core c g) Loose fun d => d.draining = false ∧ (g.enabling = true → d.listening = false))
      (unclaimLocked b.auxSmba) fun _ => Wire.Yields c { g with active := false } Loose := by
  let j : Footing := { g with active := false }
  have hclear : Obeys (wiring b)
      (Wire.Inside (.core c g) Loose fun d => d.draining = false ∧ (g.enabling = true → d.listening = false))
      (setAsf fun a => { a with active := false }) fun _ => Wire.Yields c j Loose := by
    refine .post (storeLocked_obeys (j := j)
      (F := fun d => d.draining = false ∧ (g.enabling = true → d.listening = false))
      {} ?_ (fun d hd => hd.1) nofun fun d hd => hd) fun _ w hw => ?_
    · rintro v rfl
      rfl
    · refine { hw.1 with lane := fun d hd => ⟨(hw.1.lane d hd).1, (hw.1.lane d hd).2 ?_⟩, engaged := hw.2.mpr }
      exact hw.2.mp (by rw [hd]; nofun)
  have hlook : ∀ {Z}, Obeys (wiring b) (Wire.Yields c j Z) piix4Asf fun a w => a.useMmio = true ∧ w.Yields c j Z :=
    fun {Z} => .post settingsYields_obeys fun a w hw => ⟨hw.1.mmio.trans hmmio, hw.2⟩
  refine .bind hclear fun _ => .bind hlook fun a => .pure_pre fun ha => ?_
  rw [ha]
  refine .bind (request_obeys fun w m hw => { hw with region := trivial }) fun r => ?_
  split
  · next hgot =>
    refine .pre (P := Wire.Yields c j Grasped) ?_ fun w hw => { hw.1 with region := hw.2 hgot }
    refine .bind restoreBootState_obeys fun _ => .bind hlook fun a => .pure_pre fun ha => ?_
    rw [ha]
    refine .pre (release_obeys fun w m hw => { hw with region := trivial }) fun w hw => ?_
    exact ⟨{ hw with region := trivial }, hw.region⟩
  · exact .ret fun w hw => hw.1

/-- Then the mutex is given up. -/
theorem unlockYields_obeys (hactive : g.active = false) :
    Obeys (wiring b) (Wire.Yields c g Loose) (unlock .asf) fun _ => Wire.Sits (.core c g) Loose := by
  refine .perform fun w hw => ⟨?_, fun r w' hmove => ?_⟩
  · obtain ⟨v, hrole, hv⟩ := Office.seat_core hw.seat
    cases hengaged : g.engaged with
    | true =>
      obtain ⟨d, hd⟩ := Option.ne_none_iff_exists'.mp (hw.engaged hengaged)
      refine .settled d hd ((hw.lane d hd).idle fun hclaims => ?_)
      rw [Office.claims_seat hw.seat] at hclaims
      exact absurd (hactive.symm.trans hclaims) (by decide)
    | false => exact .vacant hw.mutex c v hrole ((congrArg Footing.engaged hv).trans hengaged)
  · obtain rfl : w' = _ := hmove
    exact ⟨hw.seat, hw.region⟩

/-- Nothing is left of a claim. -/
theorem zero_obeys (hactive : g.active = false) (henabling : g.enabling = false) :
    Obeys (wiring b) (Wire.Sits (.core c g) Loose) (do
      setAsf fun _ => Piix4Asf.zero
      setAsf fun a => { a with irq := -1 } : Driver Unit) fun _ w => ∃ j, w.Sits (.core c j) Loose := by
  let j : Footing := {
    active := false, want := false, resume := false, mmio := false, enabling := g.enabling, asleep := g.asleep }
  refine .bind (Q := fun _ => Wire.Sits (.core c j) Loose) (.perform fun w hw => ⟨?_, fun r w' hmove => ?_⟩) fun _ => ?_
  · obtain ⟨v, hrole, rfl⟩ := Office.seat_core hw.seat
    refine Or.inr ⟨c, v, hrole, {}, ?_⟩
    exact .vacant (Bool.or_eq_false_iff.mpr ⟨hactive, henabling⟩) rfl fun _ _ => rfl
  · obtain rfl : w' = _ := hmove
    refine hw.store ?_
    rintro v rfl
    rfl
  · refine .post (aloofOut_obeys (j := j) {} fun v hv => hv) fun _ w hw => ⟨j, hw⟩

/-- Disable as a whole keeps to the wiring. -/
theorem disable_obeys (henabling : g.enabling = false) :
    Obeys (wiring b) (Wire.Sits (.core .disable g) Loose) (Call.body b (.core .disable)) fun _ _ => True := by
  have hend : ∀ w : Wire, (∃ j, w.Sits (.core .disable j) Loose) → w.Retires .disable := fun w ⟨j, hw⟩ =>
    retires nofun hw
  refine .bind (Q := fun _ w => ∃ j, w.Sits (.core .disable j) Loose) ?_ fun _ => .pre coreDone_obeys hend
  refine .bind settingsOut_obeys fun a => .pure_pre fun ha => .bind settingsOut_obeys fun a' => .pure_pre fun ha' => ?_
  split
  · next hread =>
    have hactive : g.active = true := ha'.active.symm.trans hread
    obtain ⟨hsmba, hmmio⟩ := ha.claimed hactive
    let j : Footing := { g.wanting false with active := false }
    have hzero := zero_obeys (b := b) (c := .disable) (g := j) rfl henabling
    rw [hsmba]
    refine .bind (stopActive_obeys hactive) fun _ => ?_
    refine .bind (lockCore_obeys (g := g.wanting false) (Footing.engaged_of hactive)) fun _ => ?_
    refine .bind (.pre (unclaimLocked_obeys (c := .disable) (g := g.wanting false) hmmio) fun w hw => ?_) fun _ => ?_
    · refine hw.mono (fun _ h => h) fun d hd => ⟨hd.idle.draining, fun he => ?_⟩
      exact absurd (henabling.symm.trans he) (by decide)
    refine .bind (unlockYields_obeys (g := j) rfl) fun _ => .bind settingsOut_obeys fun a'' => .pure_pre fun _ => ?_
    split
    · refine .bind settingsOut_obeys fun _ => .pure_pre fun _ => ?_
      exact .bind (muteOp_obeys trivial) fun _ => .bind (muteOp_obeys trivial) fun _ => hzero
    · exact .bind (muteOp_obeys trivial) fun _ => hzero
  · next hread =>
    have hactive : g.active = false := by
      rw [ha'.active] at hread
      simpa using hread
    exact zero_obeys hactive henabling

/-! ## Claiming the block -/

/-- Giving the interrupt back touches no port. -/
theorem unregisterGsi_obeys : Obeys (wiring b) (Wire.Sits (.core c g) Loose) (enableUnregisterGsi b.auxSmba)
    fun _ => Wire.Sits (.core c g) Loose := by
  have hrest : Obeys (wiring b) (Wire.Sits (.core c g) Loose) (do
      setAsf fun a => { a with gsiRegistered := false }
      setAsf fun a => { a with irq := -1 }
      enableReleaseIoregion b.auxSmba : Driver Unit) fun _ => Wire.Sits (.core c g) Loose := by
    refine .bind (aloofOut_obeys (j := g) {} fun v hv => hv) fun _ => ?_
    exact .bind (aloofOut_obeys (j := g) {} fun v hv => hv) fun _ => muteOp_obeys trivial
  refine .bind settingsOut_obeys fun a => .pure_pre fun _ => ?_
  split
  · refine .bind settingsOut_obeys fun _ => .pure_pre fun _ => .bind (muteOp_obeys trivial) fun _ => hrest
  · exact hrest

/-- The claimed block is found on the master's side. -/
theorem takeover_obeys (henabling : g.enabling = true) (hasleep : g.asleep = false) :
    Obeys (wiring b) (Wire.Sits (.core c g) Grasped) (enableTakeover b.auxSmba) fun _ =>
      Wire.Sits (.core c { g with active := true }) Grasped := by
  have hengaged : g.engaged = true := by
    unfold Footing.engaged
    rw [henabling, Bool.or_true]
  have hkeep : ∀ {f : Piix4Asf → Piix4Asf}, Aloof f → (∀ v : Charge, v.footing = g → (v.store f).footing = g) →
      Obeys (wiring b) (Wire.Inside (.core c g) Grasped Lane.Still) (setAsf f) fun _ =>
        Wire.Inside (.core c g) Grasped Lane.Still := fun hf hg =>
    aloofIn_obeys hf hg hengaged fun d hd => hf.still hd
  have hread : ∀ {port : ℕ} {reg : Reg}, decode b.auxSmba port = some reg → reg ≠ .index → reg ≠ .slvsta →
      Obeys (wiring b) (Wire.Inside (.core c g) Grasped Lane.Still) (inb port) fun _ =>
        Wire.Inside (.core c g) Grasped Lane.Still := fun hport hindex hslvsta =>
    .post (inb_obeys hport hindex hslvsta) fun _ _ hw => hw.2
  refine .bind (lockCore_obeys hengaged) fun _ => ?_
  refine .pre (P := Wire.Inside (.core c g) Grasped Lane.Still) ?_ fun w hw =>
    hw.mono (fun _ h => h) fun d hd => hd.still henabling
  refine .bind (muteOp_obeys trivial) fun _ => .bind (muteOp_obeys trivial) fun ctl =>
    .bind (hkeep {} fun v hv => hv) fun _ => ?_
  refine .bind (hread (decode_asfLisAddr _) nofun nofun) fun lisaddr => .bind (hkeep {} fun v hv => hv) fun _ => ?_
  refine .bind (hread (decode_asfSlvEn _) nofun nofun) fun slven => .bind (hkeep {} fun v hv => hv) fun _ => ?_
  refine .bind (hread (decode_asfDataBnkSel _) nofun nofun) fun bnksel => .bind (hkeep {} fun v hv => hv) fun _ => ?_
  refine .bind (masterMode_obeys (F := Lane.Silent) fun d hd => ⟨⟨hd.draining, hd.listening⟩, rfl⟩) fun _ => ?_
  refine .bind (storeInside_obeys (j := { g with active := true }) (F := Lane.Silent)
    {} ?_ (fun d hd => hd.draining) ?_ rfl
    fun d hd => ⟨⟨hd.draining, hd.listening⟩, hd.ptr⟩) fun _ => ?_
  · rintro v rfl
    rfl
  · exact fun _ hs => absurd (hasleep.symm.trans hs) (by decide)
  · refine .post unlockSilent_obeys fun _ w hw => ⟨hw.seat, ?_⟩
    rw [hw.region]
    exact nofun

/-- The way back where no interrupt is to be had. -/
theorem enableRestore_obeys (henabling : g.enabling = true) (hmmio : g.mmio = true) :
    Obeys (wiring b) (Wire.Sits (.core c g) Loose) (enableRestore b.auxSmba) fun _ =>
      Wire.Sits (.core c { g with active := false }) Loose := by
  have hengaged : g.engaged = true := by
    unfold Footing.engaged
    rw [henabling, Bool.or_true]
  refine .bind (lockCore_obeys hengaged) fun _ => ?_
  refine .bind (.pre (unclaimLocked_obeys (c := c) hmmio) fun w hw => hw.mono (fun _ h => h) fun d hd => ?_) fun _ => ?_
  · exact ⟨hd.idle.draining, fun _ => (hd.still henabling).listening⟩
  · exact .bind (unlockYields_obeys rfl) fun _ => unregisterGsi_obeys

/-- Requesting the IRQ, with its ways out. -/
theorem enableIrq_obeys (henabling : g.enabling = true) (hasleep : g.asleep = false) (hmmio : g.mmio = true) :
    Obeys (wiring b) (Wire.Sits (.core c g) Loose) (enableIrq b.auxSmba) fun _ w =>
      ∃ j, w.Sits (.core c j) Loose := by
  have hback : Obeys (wiring b) (Wire.Sits (.core c g) Loose) (enableUnregisterGsi b.auxSmba) fun _ w =>
      ∃ j, w.Sits (.core c j) Loose := .post unregisterGsi_obeys fun _ _ hw => ⟨g, hw⟩
  refine .bind settingsOut_obeys fun a => .pure_pre fun _ => .bind (muteOp_obeys trivial) fun retval => ?_
  split
  · exact .post (muteOp_obeys trivial) fun _ _ hw => ⟨g, hw⟩
  refine .bind (aloofOut_obeys (j := g) {} fun v hv => hv) fun _ => ?_
  refine .bind (aloofOut_obeys (j := g) {} fun v hv => hv) fun _ => ?_
  refine .bind settingsOut_obeys fun a => .pure_pre fun ha => ?_
  rw [ha.mmio, hmmio]
  refine .bind (request_obeys fun w m hw => ⟨hw.seat, trivial⟩) fun r => ?_
  split
  · exact .pre hback fun w hw => hw.1
  · next hgot =>
    let j : Footing := { g with active := true }
    refine .pre (P := Wire.Sits (.core c g) Grasped) ?_ fun w hw => ⟨hw.1.seat, hw.2 (not_not.mp hgot)⟩
    refine .bind (aloofOut_obeys (j := g) {} fun v hv => hv) fun _ => .bind (takeover_obeys henabling hasleep) fun _ => ?_
    refine .bind settingsOut_obeys fun a => .pure_pre fun ha => ?_
    have hmmio' : a.useMmio = true := ha.mmio.trans hmmio
    rw [hmmio']
    refine .bind (Q := fun _ => Wire.Sits (.core c j) Loose) (.pre (release_obeys fun w m hw => ⟨hw.seat, trivial⟩)
      fun w hw => ⟨⟨hw.seat, trivial⟩, hw.region⟩) fun _ => ?_
    refine .bind settingsOut_obeys fun a => .pure_pre fun _ => .bind (muteOp_obeys trivial) fun answer => ?_
    split
    · exact .post (enableRestore_obeys henabling hmmio) fun _ _ hw => ⟨_, hw⟩
    · refine .post (aloofOut_obeys (j := j) {} fun v hv => hv) fun _ _ hw => ⟨j, hw⟩

/-- Probe's claim keeps to the wiring. -/
theorem claimAux_obeys (henabling : g.enabling = true) (hasleep : g.asleep = false) :
    Obeys (wiring b) (Wire.Sits (.core c g) Loose) (claimAux b) fun _ w => ∃ j, w.Sits (.core c j) Loose := by
  have hend : ∀ {g : Footing}, Obeys (wiring b) (Wire.Sits (.core c g) Loose) (pure () : Driver Unit) fun _ w =>
      ∃ j, w.Sits (.core c j) Loose := fun {g} => .ret fun _ hw => ⟨g, hw⟩
  have hdetect : Obeys (wiring b) (Wire.Sits (.core c g) Loose) (piix4AsfDetect b.auxSmba) fun _ =>
      Wire.Sits (.core c g) Loose := by
    have hsame : Obeys (wiring b) (Wire.Sits (.core c g) Loose) (pure () : Driver Unit) fun _ =>
        Wire.Sits (.core c g) Loose := .ret fun _ hw => hw
    unfold piix4AsfDetect
    refine .bind (muteOp_obeys trivial) fun known => ?_
    split
    · exact hsame
    refine .bind (muteOp_obeys trivial) fun present => ?_
    split
    · exact hsame
    refine .bind (muteOp_obeys trivial) fun devices => ?_
    split
    · exact hsame
    · exact aloofOut_obeys (j := g) {} fun v hv => hv
  unfold claimAux
  refine .bind (muteOp_obeys trivial) fun got => ?_
  split
  · refine .bind hdetect fun _ => ?_
    unfold piix4AsfEnable
    refine .bind settingsOut_obeys fun a => .pure_pre fun _ => ?_
    split
    · exact hend
    split
    · exact hend
    split
    · exact hend
    let j : Footing := { g with mmio := piix4Sb800UseMmio b.dev }
    refine .bind (aloofOut_obeys (j := j) {} ?_) fun _ => .bind settingsOut_obeys fun a' => .pure_pre fun ha' => ?_
    · rintro v rfl
      rfl
    split
    · exact hend
    next hmapped =>
    have hmmio : j.mmio = true := by
      rw [ha'.mmio] at hmapped
      simpa using hmapped
    refine .bind (muteOp_obeys trivial) fun checked => ?_
    split
    · exact hend
    refine .bind (muteOp_obeys trivial) fun got => ?_
    split
    · exact hend
    · exact enableIrq_obeys henabling hasleep hmmio
  · exact hend

/-- The first part of probe as a whole. -/
theorem enable_obeys (henabling : g.enabling = true) (hasleep : g.asleep = false) :
    Obeys (wiring b) (Wire.Sits (.core .enable g) Loose) (Call.body b (.core .enable)) fun _ _ => True :=
  .bind (claimAux_obeys henabling hasleep) fun _ => .pre coreDone_obeys fun _ ⟨_, hw⟩ => retires nofun hw

end Steer

end HostNotify
