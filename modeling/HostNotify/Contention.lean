import HostNotify.Listening
import HostNotify.Transaction

/-!
# The hard handler against the code that arms the slave

`piix4_asf_irq_handler` masks its source by a read-modify-write of ASFSLVEN that takes no lock.
Here it is a thread of its own beside `piix4_asf_start`, `piix4_asf_resume` and `piix4_access_asf`,
so that single port accesses of both sides interleave.
-/

namespace HostNotify

open Bits Interleaving

/-! ## The contest -/

/-- The parties that write ASFSLVEN. -/
inductive Contender where
  | start | resume
  | transfer (x : SmbusXfer)
  /-- One execution of the hard handler. -/
  | hardIrq

/-- An access of ASFSLVEN: the thread, whether it holds `piix4_asf_mutex`, and of a read whether it
finds SLV_RST set. -/
inductive Access where
  | read (t : ℕ) (locked rst : Bool)
  | write (t : ℕ) (locked : Bool)

/-- The system with the operations and the hard handlers in progress, and the accesses of ASFSLVEN
so far, the latest first. -/
structure Contest where
  st : St
  working : List ℕ
  handling : List ℕ
  log : List Access

/-- The code of a party, with a last step that takes it off the list it is on. -/
def Contender.body : Contender → Driver Unit
  | .start => do
    piix4AsfStart
    perform .transferDone
  | .resume => do
    piix4AsfResume
    perform .transferDone
  | .transfer x => do
    let _ ← piix4AccessAsf x
    perform .transferDone
  | .hardIrq => do
    let _ ← piix4AsfIrqHandler
    perform .irqThreadDone

namespace Contest

/-- The log after an operation of thread `t`. -/
def record (b : Board) (t : ℕ) (s : Contest) : (o : Op) → o.Ans → List Access
  | .inb port, r =>
    if decode b.auxSmba port = some .slven then
      .read t (decide (s.st.mutex = some t)) (r.getLsbD 4) :: s.log
    else s.log
  | .outb _ port, _ =>
    if decode b.auxSmba port = some .slven then .write t (decide (s.st.mutex = some t)) :: s.log
    else s.log
  | _, _ => s.log

/-- One operation of thread `t`: `synchronize_hardirq` waits for the handlers in progress. -/
def exec (b : Board) (t : ℕ) : (o : Op) → Contest → Option (o.Ans × Contest)
  | .transferDone, s => some ((), { s with working := s.working.filter (· ≠ t) })
  | .irqThreadDone, s => some ((), { s with handling := s.handling.filter (· ≠ t) })
  | .synchronizeHardirq, s => if s.handling = [] then some ((), s) else none
  | o, s => (HostNotify.exec b t o s.st).map fun r =>
      (r.1, { s with st := r.2, log := s.record b t o r.1 })

/-- The handler runs at any time while the interrupt is requested. -/
def enter (b : Board) : Contender → ℕ → Contest → Option Contest
  | .hardIrq, t, s => if s.st.irq.requested then some { s with handling := t :: s.handling } else none
  | .transfer x, t, s => if x.smba = b.auxSmba then some { s with working := t :: s.working } else none
  | .start, t, s => some { s with working := t :: s.working }
  | .resume, t, s => some { s with working := t :: s.working }

/-- Everything but the handler and the firmware. -/
def react (b : Board) : Event → Contest → Option Contest
  | .hardIrq, _ => none
  | .firmware _, _ => none
  | e, s => (HostNotify.react Setting.all b e s.st).map fun st => { s with st := st }

end Contest

/-- The parties with their surroundings. -/
def contest (b : Board) : Machine Contest Op Op.Ans Contender Event where
  exec := Contest.exec b
  body := Contender.body
  enter := Contest.enter b
  react := Contest.react b
  admits _ _ _ := true

/-- The slave is out of reset and interrupts. -/
def Interrupting (v : Byte) : Prop := v.getLsbD 1 = true ∧ v.getLsbD 4 = false

/-- A slave that listens is wanted and enabled. -/
def St.Guarded (s : St) : Prop :=
  s.asf.listening = true → s.asf.wantListen = true ∧ Interrupting s.hw.slven

/-- A block at the auxiliary port before any of the parties begins. -/
structure Contest.Ready (b : Board) (s : Contest) : Prop where
  working : s.working = []
  handling : s.handling = []
  log : s.log = []
  mutex : s.st.mutex = none
  smba : s.st.asf.smba = b.auxSmba
  guarded : s.st.Guarded

/-! ## The order of the accesses

Whoever arms the slave does so with two read-modify-writes under the mutex, the first of which lifts
SLV_RST and the second of which sets SLV_INTR. The accesses without the mutex are those of the handlers,
whose writes clear SLV_INTR and put back the SLV_RST they have read. -/

namespace Contest

/-- Whether the latest read by thread `t` found SLV_RST set. -/
def found (t : ℕ) : List Access → Bool
  | .read u _ rst :: older => if u = t then rst else found t older
  | .write _ _ :: older => found t older
  | [] => false

/-- The latest write is a handler's. -/
def late : List Access → Bool
  | .write _ locked :: _ => !locked
  | .read _ _ _ :: older => late older
  | [] => false

/-- The latest write is that of a handler which found SLV_RST set. -/
def spoilt : List Access → Bool
  | .write t false :: older => found t older
  | .write _ true :: _ => false
  | .read _ _ _ :: older => spoilt older
  | [] => false

/-- At the latest read under the mutex, the latest write was that of a handler which found SLV_RST set.
-/
def sighted : List Access → Bool
  | .read _ true _ :: older => spoilt older
  | _ :: older => sighted older
  | [] => false

/-- The same at the latest read under the mutex that comes before the latest write under it. -/
def carried : List Access → Bool
  | .write _ true :: older => sighted older
  | _ :: older => carried older
  | [] => false

/-- A handler writes after the last write under the mutex, or a handler that found SLV_RST set was
the last to write before the read that belongs to it. -/
def Overtaken (log : List Access) : Prop := late log = true ∨ carried log = true

instance (log : List Access) : Decidable (Overtaken log) := inferInstanceAs (Decidable (_ ∨ _))

/-- What the order of the accesses says about the value of ASFSLVEN once the slave is armed. -/
structure Agrees (v : Byte) (log : List Access) : Prop where
  masked : late log = true → getElem v 1 (fits rfl) = false
  enabled : late log = false → getElem v 1 (fits rfl) = true ∧ getElem v 4 (fits rfl) = carried log

/-- At most one access of a handler makes the second value and log out of the first. -/
inductive Meddled (v : Byte) (log : List Access) : Byte → List Access → Prop
  | none : Meddled v log v log
  | read (u : ℕ) (rst : Bool) : Meddled v log v (.read u false rst :: log)
  | write (u : ℕ) (v' : Byte) (hmasked : getElem v' 1 (fits rfl) = false)
      (hreset : getElem v' 4 (fits rfl) = found u log) :
      Meddled v log v' (.write u false :: log)

/-- An armed slave interrupts just when no handler has overtaken the arming. -/
theorem Agrees.interrupting_iff {v : Byte} {log : List Access} (h : Agrees v log) :
    Interrupting v ↔ ¬ Overtaken log := by
  unfold Interrupting Overtaken
  cases hlate : late log with
  | true => simp [h.masked hlate]
  | false =>
    obtain ⟨henabled, hreset⟩ := h.enabled hlate
    simp [henabled, hreset]

/-- A handler's write keeps the register in agreement with the log. -/
theorem Agrees.meddled {v v' : Byte} {log log' : List Access} (h : Agrees v log)
    (hm : Meddled v log v' log') : Agrees v' log' := by
  cases hm with
  | none => exact h
  | read u rst => exact ⟨h.masked, h.enabled⟩
  | write u v' hmasked hreset => exact ⟨fun _ => hmasked, fun hlate => absurd hlate (by simp [late])⟩

/-- Before the first access the value is what it was found to be. -/
theorem Agrees.untouched {v : Byte} (h : Interrupting v) : Agrees v [] :=
  ⟨fun hlate => absurd hlate (by simp [late]), fun _ => h⟩

end Contest

/-! ## What the parties do to each other -/

namespace Contest

/-- Nothing that the parties depend on has changed. -/
structure Frame (s s' : Contest) : Prop where
  mutex : s'.st.mutex = s.st.mutex
  working : s'.working = s.working
  slven : s'.st.hw.slven = s.st.hw.slven
  log : s'.log = s.log
  listening : s'.st.asf.listening = s.st.asf.listening
  want : s'.st.asf.wantListen = s.st.asf.wantListen
  smba : s'.st.asf.smba = s.st.asf.smba

/-- A slave that listens is wanted, and as the order of the accesses has it. -/
def Guarded (s : Contest) : Prop :=
  s.st.asf.listening = true → s.st.asf.wantListen = true ∧ Agrees s.st.hw.slven s.log

/-- What holds in every state. -/
structure Inv (b : Board) (s : Contest) : Prop where
  smba : s.st.asf.smba = b.auxSmba
  owner : ∀ u, s.st.mutex = some u → u ∈ s.working
  idle : s.st.mutex = none → s.Guarded

/-- What a step of another party leaves to thread `t`. -/
structure Rely (t : ℕ) (s s' : Contest) : Prop where
  locked : s.st.mutex = some t → s'.st.mutex = some t ∧
    s'.st.asf.listening = s.st.asf.listening ∧ s'.st.asf.wantListen = s.st.asf.wantListen ∧
    Meddled s.st.hw.slven s.log s'.st.hw.slven s'.log
  unlocked : s.st.mutex ≠ some t → s'.st.mutex ≠ some t
  working : t ∈ s.working → t ∈ s'.working
  found : found t s'.log = found t s.log

variable {b : Board} {s s' : Contest} {t : ℕ}

/-- What touches neither ASFSLVEN nor the flags disturbs nobody. -/
theorem Frame.rely (h : Frame s s') (t : ℕ) : Rely t s s' where
  locked hm := ⟨h.mutex.trans hm, h.listening, h.want, by rw [h.slven, h.log]; exact .none⟩
  unlocked hm := by rw [h.mutex]; exact hm
  working hw := by rw [h.working]; exact hw
  found := congrArg (found t) h.log

/-- What touches neither ASFSLVEN nor the flags keeps the invariant. -/
theorem Frame.inv (h : Frame s s') (hs : Inv b s) : Inv b s' where
  smba := h.smba.trans hs.smba
  owner u hm := by
    rw [h.working]
    exact hs.owner u (h.mutex.symm.trans hm)
  idle hm hl := by
    rw [h.want, h.slven, h.log]
    exact hs.idle (h.mutex.symm.trans hm) (h.listening.symm.trans hl)

/-- The operation neither accesses ASFSLVEN nor passes the mutex on, and it leaves the intent alone. -/
def Neutral (b : Board) : Op → Prop
  | .inb port | .outb _ port => decode b.auxSmba port ≠ some .slven
  | .setAsf f => ∀ a, (f a).listening = a.listening ∧ (f a).wantListen = a.wantListen ∧
      (f a).smba = a.smba
  | .lock .asf | .unlock .asf | .transferDone => False
  | _ => True

/-- A write of another register leaves ASFSLVEN alone. -/
theorem write_slven {h : Target} {v : Byte} {r : Reg} (hr : r ≠ .slven) :
    (h.write v r).slven = h.slven := by
  cases r <;> first | rfl | exact absurd rfl hr

/-- Reads leave ASFSLVEN alone. -/
theorem read_slven {h : Target} {bus : Byte} {r : Reg} : (h.read bus r).2.slven = h.slven := by
  cases r with
  | index =>
    rw [Target.read]
    split
    · rfl
    · simp [Target.readIndex]
  | _ => rfl

/-- What an operation of the driver leaves alone in the system. -/
theorem exec_keeps {o : Op} {r : o.Ans} {x x' : St} (ho : Neutral b o)
    (h : HostNotify.exec b t o x = some (r, x')) :
    x'.mutex = x.mutex ∧ x'.hw.slven = x.hw.slven ∧ x'.asf.listening = x.asf.listening ∧
      x'.asf.wantListen = x.asf.wantListen ∧ x'.asf.smba = x.asf.smba := by
  cases o with
  | inb port =>
    obtain rfl : (x.portRead b port).2 = x' := congrArg Prod.snd (Option.some.inj h)
    unfold St.portRead
    split
    · exact ⟨rfl, read_slven, rfl, rfl, rfl⟩
    · exact ⟨rfl, rfl, rfl, rfl, rfl⟩
  | outb v port =>
    obtain rfl : x.portWrite b t v port = x' := congrArg Prod.snd (Option.some.inj h)
    unfold St.portWrite
    split
    · next reg hreg =>
      refine ⟨rfl, write_slven fun hr => ho ?_, rfl, rfl, rfl⟩
      rw [hreg, hr]
    · exact ⟨rfl, rfl, rfl, rfl, rfl⟩
  | setAsf f =>
    cases h
    exact ⟨rfl, rfl, (ho x.asf).1, (ho x.asf).2.1, (ho x.asf).2.2⟩
  | lock l =>
    cases l with
    | asf => exact ho.elim
    | notify =>
      simp only [HostNotify.exec] at h
      split at h
      · cases h
        exact ⟨rfl, rfl, rfl, rfl, rfl⟩
      · cases h
  | unlock l =>
    cases l with
    | asf => exact ho.elim
    | notify =>
      cases h
      exact ⟨rfl, rfl, rfl, rfl, rfl⟩
  | transferDone => exact ho.elim
  | requestMemRegionMuxed =>
    simp only [HostNotify.exec] at h
    split at h
    · cases h
    · split at h <;> cases h <;> exact ⟨rfl, rfl, rfl, rfl, rfl⟩
  | requestMuxedRegion start len =>
    simp only [HostNotify.exec] at h
    split at h
    · cases h
    · split at h <;> cases h <;> exact ⟨rfl, rfl, rfl, rfl, rfl⟩
  | requestRegion start len =>
    simp only [HostNotify.exec] at h
    split at h <;> cases h <;> exact ⟨rfl, rfl, rfl, rfl, rfl⟩
  | freeIrq =>
    simp only [HostNotify.exec] at h
    split at h
    · cases h
    · cases h
      exact ⟨rfl, rfl, rfl, rfl, rfl⟩
  | i2cDelAdapter =>
    simp only [HostNotify.exec] at h
    split at h
    · cases h
      exact ⟨rfl, rfl, rfl, rfl, rfl⟩
    · cases h
  | _ =>
    cases h
    exact ⟨rfl, rfl, rfl, rfl, rfl⟩

/-- An operation on the system under the parties. -/
theorem exec_some {o : Op} {r : o.Ans} (h : (HostNotify.exec b t o s.st).map (fun r =>
    (r.1, { s with st := r.2, log := s.record b t o r.1 })) = some (r, s')) :
    HostNotify.exec b t o s.st = some (r, s'.st) ∧ s' = { s with st := s'.st, log := s.record b t o r } := by
  obtain ⟨⟨r', x⟩, hx, heq⟩ := Option.map_eq_some_iff.mp h
  cases heq
  exact ⟨hx, rfl⟩

/-- A neutral operation changes nothing that the parties depend on. -/
theorem exec_frame {o : Op} {r : o.Ans} (ho : Neutral b o) (h : s.exec b t o = some (r, s')) :
    Frame s s' := by
  have hplain : (HostNotify.exec b t o s.st).map (fun r =>
      (r.1, { s with st := r.2, log := s.record b t o r.1 })) = some (r, s') →
      s.record b t o r = s.log → Frame s s' := by
    intro hmap hlog
    obtain ⟨hx, hsame⟩ := exec_some hmap
    obtain ⟨hmutex, hslven, hlistening, hwant, hsmba⟩ := exec_keeps ho hx
    rw [hsame]
    exact ⟨hmutex, rfl, hslven, hlog, hlistening, hwant, hsmba⟩
  cases o with
  | transferDone => exact ho.elim
  | irqThreadDone =>
    cases h
    exact ⟨rfl, rfl, rfl, rfl, rfl, rfl, rfl⟩
  | synchronizeHardirq =>
    simp only [Contest.exec] at h
    split at h
    · cases h
      exact ⟨rfl, rfl, rfl, rfl, rfl, rfl, rfl⟩
    · cases h
  | inb port => exact hplain h (if_neg ho)
  | outb v port => exact hplain h (if_neg ho)
  | _ => exact hplain h rfl

/-- The surroundings leave ASFSLVEN and the driver's global alone. -/
theorem react_frame {e : Event} (h : react b e s = some s') : Frame s s' := by
  unfold react at h
  cases e with
  | hardIrq => cases h
  | firmware x => cases h
  | world w =>
    obtain ⟨x, hx, rfl⟩ := Option.map_eq_some_iff.mp h
    simp only [HostNotify.react] at hx
    split at hx <;> cases hx
    exact ⟨rfl, rfl, rfl, rfl, rfl, rfl, rfl⟩
  | receive i data rwptr =>
    obtain ⟨x, hx, rfl⟩ := Option.map_eq_some_iff.mp h
    simp only [HostNotify.react] at hx
    split at hx <;> cases hx
    exact ⟨rfl, rfl, by simp [Target.receive], rfl, rfl, rfl, rfl⟩
  | rxError errors signal =>
    obtain ⟨x, hx, rfl⟩ := Option.map_eq_some_iff.mp h
    simp only [HostNotify.react] at hx
    split at hx <;> cases hx
    exact ⟨rfl, rfl, rfl, rfl, rfl, rfl, rfl⟩
  | stick i =>
    obtain ⟨x, hx, rfl⟩ := Option.map_eq_some_iff.mp h
    simp only [HostNotify.react] at hx
    split at hx <;> cases hx
    exact ⟨rfl, rfl, by simp, rfl, rfl, rfl, rfl⟩

/-- The slave has been masked while a party without the mutex was at it, or nothing has happened. -/
theorem Guarded.meddled (h : s.Guarded) (hlistening : s'.st.asf.listening = s.st.asf.listening)
    (hwant : s'.st.asf.wantListen = s.st.asf.wantListen)
    (hm : Meddled s.st.hw.slven s.log s'.st.hw.slven s'.log) : s'.Guarded := by
  intro hl
  obtain ⟨hw, hagrees⟩ := h (hlistening.symm.trans hl)
  exact ⟨hwant.trans hw, hagrees.meddled hm⟩

/-- The safety argument: nothing is checked on the way but the invariant. -/
def safety (b : Board) : Proof (contest b) where
  inv := Inv b
  rely := Rely
  ok _ _ _ := True
  done _ _ _ := True
  absent t s := s.st.mutex ≠ some t
  absent_keeps _ _ _ _ h hr _ := hr.unlocked h
  event_keeps _ _ _ he hs := ⟨(react_frame he).inv hs, (react_frame he).rely⟩
  enter_keeps c t s s' he hs _ := by
    have hmore : ∀ s', s' = { s with working := t :: s.working } →
        Inv b s' ∧ ∀ u, u ≠ t → Rely u s s' := by
      rintro _ rfl
      refine ⟨⟨hs.smba, fun u hm => List.mem_cons_of_mem _ (hs.owner u hm), hs.idle⟩, fun u _ => ?_⟩
      exact ⟨fun hm => ⟨hm, rfl, rfl, .none⟩, id, fun hw => List.mem_cons_of_mem _ hw, rfl⟩
    cases c with
    | start => exact hmore s' (Option.some.inj he).symm
    | resume => exact hmore s' (Option.some.inj he).symm
    | transfer x =>
      obtain ⟨_, he⟩ := Option.ite_none_right_eq_some.mp he
      exact hmore s' (Option.some.inj he).symm
    | hardIrq =>
      obtain ⟨_, he⟩ := Option.ite_none_right_eq_some.mp he
      obtain rfl := Option.some.inj he
      have hframe : Frame s { s with handling := t :: s.handling } := ⟨rfl, rfl, rfl, rfl, rfl, rfl, rfl⟩
      exact ⟨hframe.inv hs, fun u _ => hframe.rely u⟩

/-- What a proof about the party running as thread `t` refers to. -/
abbrev rules (b : Board) (c : Contender) (t : ℕ) : Discipline Contest Op Op.Ans :=
  (safety b).discipline c t

/-! ## Accesses of ASFSLVEN -/

/-- ASFSLVEN holds what was written to it. -/
theorem slven_write (h : Target) (v : Byte) : (h.write v .slven).slven = v := by
  rw [Target.write]
  split <;> rfl

/-- The system after an access of ASFSLVEN. -/
structure Accessed (v : Byte) (log : List Access) (s s' : Contest) : Prop where
  mutex : s'.st.mutex = s.st.mutex
  working : s'.working = s.working
  slven : s'.st.hw.slven = v
  log : s'.log = log
  asf : s'.st.asf = s.st.asf

/-- A read of ASFSLVEN is logged with what it says about the reset. -/
theorem exec_read {v : Byte} {port : ℕ} (hport : decode b.auxSmba port = some .slven)
    (h : s.exec b t (.inb port) = some (v, s')) : v = s.st.hw.slven ∧
      Accessed s.st.hw.slven
        (.read t (decide (s.st.mutex = some t)) (getElem v 4 (fits rfl)) :: s.log) s s' := by
  obtain ⟨hx, hsame⟩ := exec_some (o := .inb port) h
  have hread : s.st.portRead b port = (v, s'.st) := Option.some.inj hx
  rw [St.portRead_reg s.st hport] at hread
  obtain ⟨rfl, hst⟩ := Prod.mk.inj hread
  refine ⟨rfl, ?_⟩
  rw [hsame, ← hst]
  exact ⟨rfl, rfl, rfl, if_pos hport, rfl⟩

/-- A write of ASFSLVEN is logged. -/
theorem exec_write {v : Byte} {port : ℕ} {r : Unit} (hport : decode b.auxSmba port = some .slven)
    (h : s.exec b t (.outb v port) = some (r, s')) :
    Accessed v (.write t (decide (s.st.mutex = some t)) :: s.log) s s' := by
  obtain ⟨hx, hsame⟩ := exec_some (o := .outb v port) h
  have hwrite : s.st.portWrite b t v port = s'.st := congrArg Prod.snd (Option.some.inj hx)
  rw [St.portWrite_reg s.st t v hport] at hwrite
  rw [hsame, ← hwrite]
  exact ⟨rfl, rfl, slven_write _ _, if_pos hport, rfl⟩

/-- A handler's access keeps the invariant and leaves the holder of the mutex its own. -/
theorem Accessed.unlocked {v : Byte} {log : List Access} (h : Accessed v log s s') (hs : Inv b s)
    (hm : Meddled s.st.hw.slven s.log v log) (hfound : ∀ u, u ≠ t → found u log = found u s.log) :
    Inv b s' ∧ ∀ u, u ≠ t → Rely u s s' := by
  have hlistening : s'.st.asf.listening = s.st.asf.listening := congrArg Piix4Asf.listening h.asf
  have hwant : s'.st.asf.wantListen = s.st.asf.wantListen := congrArg Piix4Asf.wantListen h.asf
  have hmeddled : Meddled s.st.hw.slven s.log s'.st.hw.slven s'.log := by
    rw [h.slven, h.log]
    exact hm
  refine ⟨⟨?_, fun u hu => ?_, fun hfree => ?_⟩, fun u hu => ⟨fun hmine => ?_, fun hno => ?_, fun hw => ?_, ?_⟩⟩
  · rw [h.asf]
    exact hs.smba
  · rw [h.working]
    exact hs.owner u (h.mutex.symm.trans hu)
  · exact (hs.idle (h.mutex.symm.trans hfree)).meddled hlistening hwant hmeddled
  · exact ⟨h.mutex.trans hmine, hlistening, hwant, hmeddled⟩
  · rw [h.mutex]
    exact hno
  · rw [h.working]
    exact hw
  · rw [h.log]
    exact hfound u hu

end Contest

end HostNotify
