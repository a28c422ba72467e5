import HostNotify.Steering
import HostNotify.Upholding

/-!
# The shared port in every run

Transfers, the IRQ thread and the device callbacks respect the accounts of the routing. So a drain
always reads the banks, from the first byte of a message on, and a transfer always the host FIFO.
-/

namespace HostNotify

open Bits Interleaving

variable {k : Setting} {b : Board} {w : Wire} {q : Seat} {Z : Option (Option Bool) → Prop} {P F : Lane → Prop}
  {x : SmbusXfer} {n : Notifies} {c : CoreCall} {g j : Footing}

namespace Lane

/-- No drain is in progress, and a slave that listens is wanted. -/
structure Quiet (d : Lane) : Prop where
  draining : d.draining = false
  wanted : d.listening = true → d.want = true

/-- The next read-out starts at the first byte. -/
structure Rewound (d : Lane) : Prop extends Quiet d where
  ptr : d.ptr = .start

/-- A transfer can use the port. -/
structure Mastered (d : Lane) : Prop extends Rewound d, Masters d

/-- What is found with the mutex. -/
structure Found (q : Seat) (d : Lane) : Prop where
  idle : d.Idle q.Claims
  wanted : d.listening = true → d.want = true
  core : ∀ c g, q = .core c g → d.resume = g.resume ∧
    (d.listening = true → g.active = true ∧ g.enabling = false)

/-- A ready lane is rewound. -/
theorem Ready.rewound {d : Lane} (h : d.Ready) : d.Rewound := ⟨⟨h.draining, h.wanted⟩, h.ptr⟩

/-- A ready lane is idle. -/
theorem Ready.idle {d : Lane} {claims : Prop} (h : d.Ready) : d.Idle claims :=
  ⟨h.draining, fun _ => ⟨h.dataEn, h.ptr⟩, fun _ _ => h.ptr⟩

/-- A rewound lane that does not listen is idle. -/
theorem Rewound.idle {d : Lane} {claims : Prop} (h : d.Rewound) (hsilent : d.listening = false) :
    d.Idle claims :=
  ⟨h.draining, fun hl => absurd (hl.symm.trans hsilent) (by decide), fun _ _ => h.ptr⟩

/-- A listening slave is ready to be drained. -/
theorem Found.ready {d : Lane} (h : d.Found q) (hlisten : d.listening = true) : d.Ready :=
  ⟨h.idle.draining, (h.idle.listening hlisten).1, (h.idle.listening hlisten).2, h.wanted⟩

end Lane

/-- The seat is that of a call for which an engaged block is there. -/
def Seat.Engages : Seat → Prop
  | .core _ g => g.engaged = true
  | _ => True

/-- Who drains is engaged. -/
theorem Seat.Drains.engages (hq : q.Drains) : q.Engages := by
  cases q with
  | core c g => exact hq.elim
  | _ => trivial

namespace Steer

/-! ## The mutex and the region -/

/-- Taking the mutex tells whether the block is engaged, and how the port is routed. -/
theorem lock_obeys : Obeys (wiring b) (Wire.Sits q Z) (lock .asf) fun _ w =>
    (w.mutex = true ∧ w.lane = none ∧ w.office.seat = some q ∧ ¬ (q = .thread) ∧
      (q = .aux → w.unclaimed = true) ∧ ∀ c g, q = .core c g → g.engaged = false) ∨
    w.Inside q Z (Lane.Found q) := by
  refine .perform fun w hw => ⟨Office.serves_seat hw.seat, fun r w' hmove => ?_⟩
  obtain ⟨l, henters, rfl⟩ := hmove
  cases l with
  | none =>
    refine Or.inl ⟨rfl, rfl, hw.seat, fun hq => ?_, fun hq => ?_, fun c g hq => ?_⟩
    · subst hq
      exact henters.thread (Office.seat_thread hw.seat) rfl
    · subst hq
      change (w.unclaimed || (w.office.isAux && true)) = true
      rw [Office.seat_aux hw.seat]
      exact Bool.or_true _
    · subst hq
      obtain ⟨v, hv, rfl⟩ := Office.seat_core hw.seat
      exact (henters.engaged c v hv).mp rfl
  | some d =>
    refine Or.inr ⟨⟨⟨hw.seat, hw.region⟩, rfl, fun e he => ?_⟩, nofun⟩
    obtain rfl := Option.some.inj he
    have hidle := henters.idle d rfl
    rw [Office.claims_seat hw.seat] at hidle
    refine ⟨hidle, henters.wanted d rfl, fun c g hq => ?_⟩
    subst hq
    obtain ⟨v, hv, rfl⟩ := Office.seat_core hw.seat
    exact henters.core d c v rfl hv

/-- The IRQ thread takes the mutex. -/
theorem lockThread_obeys : Obeys (wiring b) (Wire.Sits .thread Z) (lock .asf) fun _ =>
    Wire.Inside .thread Z (Lane.Found .thread) :=
  .post lock_obeys fun _ _ hw => hw.resolve_left fun h => h.2.2.2.1 rfl

/-- A callback takes the mutex. -/
theorem lockCore_obeys (hg : g.engaged = true) :
    Obeys (wiring b) (Wire.Sits (.core c g) Z) (lock .asf) fun _ =>
      Wire.Inside (.core c g) Z (Lane.Found (.core c g)) :=
  .post lock_obeys fun _ w hw => hw.resolve_left fun h =>
    absurd (hg.symm.trans (h.2.2.2.2.2 c g rfl)) (by decide)

/-- An idle lane is left with the mutex. -/
theorem unlock_obeys : Obeys (wiring b) (Wire.Inside q Z fun d => d.Idle q.Claims) (unlock .asf) fun _ =>
    Wire.Sits q Z := by
  refine .perform fun w hw => ⟨?_, fun r w' hmove => ?_⟩
  · obtain ⟨d, hd, hidle⟩ := hw.some
    refine .settled d hd ?_
    rw [Office.claims_seat hw.seat]
    exact hidle
  · obtain rfl : w' = _ := hmove
    exact ⟨hw.seat, hw.region⟩

/-- Asking for the FCH PM region. -/
theorem request_obeys {Q : Wire → Prop} (hQ : ∀ w m, Q w → Q { w with region := m }) :
    Obeys (wiring b) Q (piix4Sb800RegionRequest true) fun r w => Q w ∧ (r = 0 → w.region ≠ none) := by
  intro w hw
  refine ⟨trivial, fun r w₁ hmove => ?_⟩
  cases r with
  | false =>
    obtain rfl : w₁ = w := hmove
    exact ⟨hw, fun h => absurd h (by decide)⟩
  | true =>
    obtain rfl : w₁ = { w with region := some none } := hmove
    refine ⟨trivial, fun r w₂ hmove => ?_⟩
    obtain rfl : w₂ = _ := hmove
    cases r with
    | true => exact ⟨hQ w _ hw, fun _ h => nomatch h⟩
    | false =>
      refine ⟨(fun h => nomatch h), fun _ w₃ hmove => ?_⟩
      obtain rfl : w₃ = _ := hmove
      exact ⟨hQ w _ hw, fun h => absurd h (by decide)⟩

/-- The region is given up. -/
theorem release_obeys {Q : Wire → Prop} (hQ : ∀ w m, Q w → Q { w with region := m }) :
    Obeys (wiring b) (fun w => Q w ∧ w.region ≠ none) (piix4Sb800RegionRelease true) fun _ => Q := by
  refine .perform fun w hw => ⟨hw.2, fun r w' hmove => ?_⟩
  obtain rfl : w' = _ := hmove
  exact hQ w _ hw.1

/-- The region is asked for under the mutex. -/
theorem requestInside_obeys : Obeys (wiring b) (Wire.Inside q Loose P) (piix4Sb800RegionRequest true) fun r =>
    Wire.Inside q (fun m => r = 0 → Grasped m) P :=
  .post (request_obeys fun _ _ hw => { hw with region := trivial }) fun _ _ hw => { hw.1 with region := hw.2 }

/-- The region is given up under the mutex. -/
theorem releaseInside_obeys : Obeys (wiring b) (Wire.Inside q Grasped P) (piix4Sb800RegionRelease true) fun _ =>
    Wire.Inside q Loose P :=
  .pre (release_obeys fun _ _ hw => { hw with region := trivial }) fun _ hw =>
    ⟨{ hw with region := trivial }, hw.region⟩

/-! ## Transfers -/

/-- With the port laid to the master's side, or the block unclaimed, a transfer may use it. -/
theorem access_obeys {Q : Wire → Prop} (hx : x.smba = b.auxSmba)
    (hallow : ∀ w, Q w → w.Masters ∨ (w.unclaimed = true ∧ w.lane = none)) :
    Obeys (wiring b) Q (piix4Access x) fun _ => Q := by
  have hports : Permits (fun port => decode b.auxSmba port = none ∨ decode b.auxSmba port = some .index) x.smba := by
    intro i hi
    rw [hx, decode_add]
    have hall : ∀ j ≤ 8, decode 0 j = none ∨ decode 0 j = some .index := by decide
    exact hall i hi
  have hsame : ∀ w, Q w → w.onLane Lane.peek = w := by
    intro w hw
    unfold Wire.onLane
    rcases hallow w hw with ⟨⟨d, hd, hmaster⟩, _⟩ | ⟨_, hnone⟩
    · rw [hd, Option.map_some, Lane.peek, if_neg (by rw [hmaster.dataEn]; decide), ← hd]
    · rw [hnone, Option.map_none, ← hnone]
  refine .of_allOps (piix4Access_plain hports) fun o w ho hw => ?_
  have hmute : o.Mute b → w.allows b o ∧ ∀ r w', w.moves b o r w' → Q w' := fun ho => by
    obtain ⟨hok, hmove⟩ := ho.obeys w
    exact ⟨hok, fun r w' h => hmove r w' h ▸ hw⟩
  cases o with
  | inb port =>
    rcases ho with hport | hport
    · exact hmute ⟨by simp [hport], by simp [hport]⟩
    · refine ⟨⟨fun _ => Or.inr (hallow w hw), fun h => nomatch hport.symm.trans h⟩, fun r w' hmove => ?_⟩
      have hnew : w' = w := (hmove.2.trans (if_pos hport)).trans (hsame w hw)
      exact hnew ▸ hw
  | outb v port =>
    rcases ho with hport | hport
    · exact hmute hport
    · refine ⟨⟨fun _ => hallow w hw, fun r h hr => absurd (Option.some.inj (hport.symm.trans h)).symm hr⟩, ?_⟩
      intro r w' hmove
      have hnew : w' = w := by
        refine Eq.trans hmove ?_
        unfold Wire.written Wire.onLane
        rw [hport]
        cases w with
        | mk o m l => cases l <;> rfl
      exact hnew ▸ hw
  | usleepRange lo hi => exact hmute trivial
  | dynamicDebug => exact hmute trivial
  | _ => exact ho.elim

/-- `piix4_access` on behalf of `piix4_access_asf`. -/
theorem accessMastered_obeys (hx : x.smba = b.auxSmba) :
    Obeys (wiring b) (Wire.Inside q Mastering Lane.Mastered) (piix4Access x) fun _ =>
      Wire.Inside q Mastering Lane.Mastered := by
  refine access_obeys hx fun w hw => ?_
  obtain ⟨d, hd, hmaster⟩ := hw.some
  exact Or.inl ⟨⟨d, hd, hmaster.toMasters⟩, hw.region⟩

/-- Whoever holds the mutex may say whether the slave listens. -/
theorem setListening_obeys (hq : q.Engages) (y : Bool)
    (hP : ∀ d, P d → d.draining = false ∧ F { d with listening := y }) :
    Obeys (wiring b) (Wire.Inside q Z P) (setAsf fun a => { a with listening := y }) fun _ =>
      Wire.Inside q Z F := by
  refine .perform fun w hw => ⟨?_, fun r w' hmove => ?_⟩
  · obtain ⟨d, hd, hPd⟩ := hw.some
    exact Or.inl ⟨d, hd, (hP d hPd).1, y, fun _ => rfl⟩
  · obtain rfl : w' = _ := hmove
    unfold Wire.store
    split
    · next c v hrole =>
      have hseat := hw.seat
      rw [hrole] at hseat
      obtain rfl : Seat.core c v.footing = q := Option.some.inj hseat
      have hengaged : (v.store fun a => { a with listening := y }).engaged = true := hq
      rw [if_pos hengaged]
      have hlane := hw.onLane (g := fun d => d.store fun a => { a with listening := y }) fun d hd => (hP d hd).2
      exact { hlane with seat := rfl }
    · exact hw.onLane fun d hd => (hP d hd).2

/-- A slave that is held off can still be drained. -/
theorem holdReady_obeys : Obeys (wiring b) (Wire.Inside q Z Lane.Ready) (holdOff b.auxSmba) fun _ =>
    Wire.Inside q Z Lane.Ready := by
  refine holdOff_obeys fun d y hd => ⟨hd.draining, hd.dataEn, ?_, hd.wanted⟩
  change (if y = true then Pointer.start else d.ptr) = .start
  rw [hd.ptr]
  split <;> rfl

/-- The slave is told to listen, and armed. -/
theorem setArmed_obeys (hq : q.Engages) :
    Obeys (wiring b) (Wire.Inside q Grasped fun d => d.Rewound ∧ d.want = true)
      (setAsf fun a => { a with listening := true }) fun _ =>
        Wire.Inside q Grasped fun d => d.Rewound ∧ d.want = true :=
  setListening_obeys hq true fun _ hd =>
    ⟨hd.1.draining, ⟨⟨hd.1.draining, fun _ => hd.2⟩, hd.1.ptr⟩, hd.2⟩

/-- Arming a rewound and wanted lane makes it ready. -/
theorem armed_obeys : Obeys (wiring b) (Wire.Inside q Grasped fun d => d.Rewound ∧ d.want = true)
    (piix4AsfSlaveArm b.auxSmba) fun _ => Wire.Inside q Grasped Lane.Ready :=
  slaveArm_obeys fun _ hd => ⟨hd.1.draining, rfl, hd.1.ptr, fun _ => hd.2⟩

/-- A yield leaves the lane ready. -/
theorem yieldBus_obeys (hq : q.Drains) (n : Notifies) :
    Obeys (wiring b) (Wire.Inside q Grasped fun d => d.Rewound ∧ d.want = true) (yieldBus b.auxSmba n) fun _ =>
      Wire.Inside q Grasped Lane.Ready := by
  refine .bind (setArmed_obeys hq.engages) fun _ => .bind armed_obeys fun _ => ?_
  exact .bind (muteOp_obeys trivial) fun _ => .bind holdReady_obeys fun _ => drain_obeys hq n

/-- Every attempt of `piix4_access_asf` switches to the master's side first. -/
theorem attempts_obeys (hq : q.Drains) (hx : x.smba = b.auxSmba) (left : ℕ) (n : Notifies) :
    Obeys (wiring b) (Wire.Inside q Grasped Lane.Quiet) (attempts x left n) fun _ =>
      Wire.Inside q Grasped Lane.Rewound := by
  have hmaster : ∀ x : SmbusXfer, x.smba = b.auxSmba →
      Obeys (wiring b) (Wire.Inside q Grasped Lane.Quiet) (piix4AsfMasterMode x.smba) fun _ =>
        Wire.Inside q Mastering Lane.Mastered := fun x hx =>
    hx ▸ masterMode_obeys fun d hd => ⟨⟨⟨hd.draining, hd.wanted⟩, rfl⟩, rfl, rfl, rfl⟩
  have hend : ∀ w : Wire, w.Inside q Mastering Lane.Mastered → w.Inside q Grasped Lane.Rewound := fun w hw =>
    hw.mono (fun m hm => by rw [hm]; exact nofun) fun d hd => hd.toRewound
  have hlook : Obeys (wiring b) (Wire.Inside q Mastering Lane.Mastered) piix4Asf fun a =>
      Wire.Inside q Grasped fun d => d.Rewound ∧ a.wantListen = d.want :=
    .post (global_obeys hq) fun a w hw =>
      hw.2.mono (fun m hm => by rw [hm]; exact nofun) fun d hd => ⟨hd.1.toRewound, hd.2.2⟩
  have hdone : ∀ w : Wire, ∀ v, w.Inside q Grasped (fun d => d.Rewound ∧ v = d.want) →
      w.Inside q Grasped Lane.Rewound := fun w v hw => hw.mono (fun _ h => h) fun d hd => hd.1
  induction left generalizing x n with
  | zero =>
    unfold attempts
    refine .bind (hmaster x hx) fun _ => .bind (accessMastered_obeys hx) fun r => .bind hlook fun a => ?_
    split <;> exact .ret fun w hw => hdone w _ hw
  | succ left ih =>
    unfold attempts
    refine .bind (hmaster x hx) fun _ => .bind (accessMastered_obeys hx) fun res => .bind hlook fun a => ?_
    split
    · exact .ret fun w hw => hdone w _ hw
    · next hretry =>
      have hwant : a.wantListen = true := by
        by_contra hnot
        exact hretry (Or.inr (by simpa using hnot))
      have hyield : Obeys (wiring b) (Wire.Inside q Grasped fun d => d.Rewound ∧ d.want = true)
          (yieldBus x.smba n) fun _ => Wire.Inside q Grasped Lane.Ready := hx ▸ yieldBus_obeys hq n
      refine .bind (.pre hyield fun w hw => hw.mono (fun _ h => h) fun d hd => ?_) fun r => ?_
      · exact ⟨hd.1, hd.2.symm.trans hwant⟩
      dsimp only
      split
      · exact .bind (muteOp_obeys trivial) fun _ => .ret fun w hw => hw.mono (fun _ h => h) fun d hd => hd.rewound
      · exact (ih (x := { x with data := res.2 }) hx _).pre fun w hw => hw.mono (fun _ h => h)
          fun d hd => hd.rewound.toQuiet

/-- The first drain leaves it quiet. -/
theorem drainListening_obeys (hq : q.Drains) :
    Obeys (wiring b) (Wire.Inside q Grasped (Lane.Found q)) (drainListening b.auxSmba) fun _ =>
      Wire.Inside q Grasped Lane.Quiet := by
  refine .bind (global_obeys hq) fun a => .pure_pre fun _ => ?_
  split
  · next hlisten =>
    refine .pre (P := Wire.Inside q Grasped Lane.Ready) ?_ fun w hw =>
      hw.mono (fun _ h => h) fun d hd => hd.1.ready (hd.2.1.symm.trans hlisten)
    refine .bind holdReady_obeys fun _ => .bind (drain_obeys hq _) fun r => ?_
    exact .ret fun w hw => hw.mono (fun _ h => h) fun d hd => hd.rewound.toQuiet
  · exact .ret fun w hw => hw.mono (fun _ h => h) fun d hd => ⟨hd.1.idle.draining, hd.1.wanted⟩

/-- A transfer leaves the port to a slave that listens, and the pointer at the first byte. -/
theorem accessAsfLocked_obeys (hq : q.Drains) (hx : x.smba = b.auxSmba) :
    Obeys (wiring b) (Wire.Inside q Grasped (Lane.Found q)) (accessAsfLocked x) fun _ =>
      Wire.Inside q Grasped fun d => d.Idle q.Claims := by
  unfold accessAsfLocked
  rw [hx]
  refine .bind (drainListening_obeys hq) fun n => .bind (attempts_obeys hq hx _ n) fun res => ?_
  refine .bind (global_obeys hq) fun a => .pure_pre fun _ => ?_
  split
  · next hwant =>
    refine .bind (.pre (setArmed_obeys hq.engages) fun w hw => hw.mono (fun _ h => h) fun d hd => ?_) fun _ => ?_
    · exact ⟨hd.1, hd.2.2.symm.trans hwant⟩
    exact .bind armed_obeys fun _ => .ret fun w hw => hw.mono (fun _ h => h) fun d hd => hd.idle
  · next hwant =>
    refine .ret fun w hw => hw.mono (fun _ h => h) fun d hd => hd.1.idle ?_
    by_contra hlisten
    exact hwant (hd.2.2.trans (hd.1.wanted ((Bool.not_eq_false _).mp hlisten)))

/-- The global tells that DecodeEn is reached through MMIO. -/
theorem globalMmio_obeys (hq : q.Drains) : Obeys (wiring b) (Wire.Inside q Z P) piix4Asf fun a w =>
    a.useMmio = true ∧ w.Inside q Z P :=
  .post (global_obeys hq) fun _ _ hw => ⟨hw.1.2, hw.2.mono (fun _ h => h) fun _ hd => hd.1⟩

/-- Delivering notifications leaves the port alone. -/
theorem deliver_obeys {Q : Wire → Prop} (n : Notifies) : Obeys (wiring b) Q (piix4AsfDeliver n) fun _ => Q :=
  mute_obeys (deliver_allOps trivial trivial trivial trivial (fun _ => trivial) trivial n)

/-- The block is not claimed, and no callback claims it. -/
structure Unserved (w : Wire) : Prop where
  seat : w.office.seat = some .aux
  unclaimed : w.unclaimed = true
  lane : w.lane = none

/-- An SMBus access on a port without the target. -/
theorem accessUnserved_obeys (hx : x.smba = b.auxSmba) : Obeys (wiring b) Unserved (piix4Access x) fun _ => Unserved :=
  access_obeys hx fun _ hw => Or.inr ⟨hw.unclaimed, hw.lane⟩

/-- A transfer as a whole keeps to the wiring. -/
theorem piix4AccessAsf_obeys (hx : x.smba = b.auxSmba) :
    Obeys (wiring b) (Wire.Sits .aux Loose) (piix4AccessAsf x) fun _ => Wire.Sits .aux Loose := by
  have hlook : Obeys (wiring b) (fun w => (w.mutex = true ∧ Unserved w) ∨ w.Inside .aux Loose (Lane.Found .aux))
      piix4Asf fun a w => (a.active = false ∧ w.mutex = true ∧ Unserved w) ∨
        (a.active = true ∧ w.Inside .aux Loose (Lane.Found .aux)) := by
    refine .post asf_obeys fun a w hw => ?_
    rcases hw.2 with hun | hin
    · exact Or.inl ⟨hw.1.unclaimed hun.2.unclaimed, hun⟩
    · exact Or.inr ⟨hw.1.aux (Office.seat_aux hin.seat) hin.engaged, hin⟩
  unfold piix4AccessAsf
  refine .bind (.post lock_obeys fun _ w hw => hw.imp_left fun h => ?_) fun _ => .bind hlook fun a => ?_
  · exact ⟨h.1, h.2.2.1, h.2.2.2.2.1 rfl, h.2.1⟩
  cases hactive : a.active with
  | false =>
    rw [if_pos (by rfl)]
    refine .bind (Q := fun _ => Unserved) (.perform fun w hw => ?_) fun _ => ?_
    · rcases hw with ⟨_, hm, hun⟩ | ⟨h, _⟩
      · refine ⟨.unclaimed hm hun.unclaimed, fun r w' hmove => ?_⟩
        obtain rfl : w' = _ := hmove
        exact ⟨hun.seat, hun.unclaimed, rfl⟩
      · cases h
    · exact .post (accessUnserved_obeys hx) fun _ w hw => ⟨hw.seat, trivial⟩
  | true =>
    rw [if_neg (by decide)]
    refine .pre (P := Wire.Inside .aux Loose (Lane.Found .aux)) ?_ fun w hw => ?_
    · refine .bind (globalMmio_obeys trivial) fun a => .pure_pre fun hmmio => ?_
      rw [hmmio]
      refine .bind requestInside_obeys fun retval => ?_
      split
      · refine .bind (.pre unlock_obeys fun w hw => ?_) fun _ => .ret fun w hw => hw
        exact hw.mono (fun _ _ => trivial) fun d hd => hd.idle
      · next hgot =>
        refine .bind (.pre (accessAsfLocked_obeys (q := .aux) trivial hx) fun w hw => ?_) fun res => ?_
        · exact hw.mono (fun _ h => h (not_not.mp hgot)) fun d hd => hd
        refine .bind (globalMmio_obeys trivial) fun a => .pure_pre fun hmmio => ?_
        rw [hmmio]
        refine .bind releaseInside_obeys fun _ => .bind (muteOp_obeys trivial) fun _ => ?_
        exact .bind unlock_obeys fun _ => .bind (deliver_obeys _) fun _ => .ret fun w hw => hw
    · rcases hw with ⟨h, _⟩ | ⟨_, hin⟩
      · cases h
      · exact hin

/-! ## The IRQ thread -/

/-- Resetting a wedged slave leaves the port to it, or has it not listen any more. -/
theorem resetWedged_obeys (hq : q.Drains) (n : Notifies) :
    Obeys (wiring b) (Wire.Inside q Loose Lane.Ready) (resetWedged b.auxSmba n) fun _ =>
      Wire.Inside q Loose Lane.Ready := by
  refine .bind (globalMmio_obeys hq) fun a => .pure_pre fun hmmio => ?_
  rw [hmmio]
  refine .bind requestInside_obeys fun retval => ?_
  split
  · next hgot =>
    refine .pre (P := Wire.Inside q Grasped Lane.Ready) ?_ fun w hw => hw.mono (fun _ h => h hgot) fun _ hd => hd
    refine .bind (muteOp_obeys trivial) fun _ => ?_
    refine .bind (updateListn_obeys (F := Lane.Ready) fun d hd => ⟨hd.draining, hd.dataEn, hd.ptr, hd.wanted⟩) fun _ => ?_
    refine .bind (drain_obeys hq n) fun r => ?_
    refine .bind (updateRst_obeys (F := Lane.Ready) fun d hd => ⟨hd.draining, hd.dataEn, rfl, hd.wanted⟩) fun _ => ?_
    refine .bind (outb_obeys (F := Lane.Ready) (decode_asfSlvSta _) nofun fun _ hd => hd) fun _ => ?_
    refine .bind (slaveArm_obeys (F := Lane.Ready) fun d hd => ⟨hd.draining, rfl, hd.ptr, hd.wanted⟩) fun _ => ?_
    refine .bind (globalMmio_obeys hq) fun a => .pure_pre fun hmmio => ?_
    rw [hmmio]
    exact .bind releaseInside_obeys fun _ => .ret fun w hw => hw
  · refine .pre (P := Wire.Inside q Loose Lane.Ready) ?_ fun w hw => hw.mono (fun _ _ => trivial) fun _ hd => hd
    refine .bind (updateListn_obeys (F := Lane.Ready) fun d hd => ⟨hd.draining, hd.dataEn, hd.ptr, hd.wanted⟩) fun _ => ?_
    refine .bind (setListening_obeys hq.engages false fun d hd => ?_) fun _ => .ret fun w hw => hw
    exact ⟨hd.draining, hd.draining, hd.dataEn, hd.ptr, nofun⟩

/-- The IRQ thread's drain keeps to the wiring. -/
theorem drainThread_obeys : Obeys (wiring b) (Wire.Inside .thread Loose Lane.Ready) (drainThread b.auxSmba) fun _ =>
    Wire.Inside .thread Loose Lane.Ready := by
  refine .bind (drain_obeys (q := .thread) trivial _) fun r => ?_
  dsimp only
  split
  · exact resetWedged_obeys (q := .thread) trivial _
  · exact .ret fun w hw => hw

/-- The IRQ thread as a whole keeps to the wiring. -/
theorem piix4AsfIrqThread_obeys :
    Obeys (wiring b) (Wire.Sits .thread Loose) piix4AsfIrqThread fun _ => Wire.Sits .thread Loose := by
  refine .bind (Q := fun a w => a.smba = b.auxSmba ∧ w.Sits .thread Loose) (.post asf_obeys fun a w hw => ?_)
    fun a => .pure_pre fun hsmba => ?_
  · exact ⟨(hw.1.claimed (hw.1.thread (Office.seat_thread hw.2.seat))).1, hw.2⟩
  dsimp only
  rw [hsmba]
  refine .bind lockThread_obeys fun _ => .bind (global_obeys trivial) fun a => .pure_pre fun _ => ?_
  cases hlisten : a.listening with
  | false =>
    rw [if_pos (by rfl)]
    refine .bind (muteOp_obeys trivial) fun _ => .pre unlock_obeys fun w hw => ?_
    exact hw.mono (fun _ h => h) fun d hd => hd.1.idle
  | true =>
    rw [if_neg (by decide)]
    refine .bind (.pre drainThread_obeys fun w hw => hw.mono (fun _ h => h) fun d hd => ?_) fun n => ?_
    · exact hd.1.ready hd.2.1.symm
    refine .bind (muteOp_obeys trivial) fun _ => .bind (.pre unlock_obeys fun w hw => ?_) fun _ => deliver_obeys _
    exact hw.mono (fun _ h => h) fun d hd => hd.idle

end Steer

end HostNotify
