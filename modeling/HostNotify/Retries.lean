import HostNotify.Overrun

/-!
# The attempts of a transfer

What `piix4_access_asf` makes of a request, told from outside: a sequence of attempts, each after a
switch to master mode and each with the request as it came. Another one follows as long as the bus
was lost, or the device did not answer because it had just sent a Host Notify itself.
-/

namespace HostNotify

open Bits Interleaving

/-- Run on its own from `y`, the code returns `a` and leaves `z`. -/
def Runs {A : Type} (h : Answers) (p : Driver A) (y : Transcript) (a : A) (z : Transcript) : Prop :=
  p.runAlone (Transcript.exec h) y = some (a, z)

/-- The addresses recorded so far in a call: those decoded, as far as there was room. -/
def recorded (l : List Exchange) : List ℕ := (decoded l).take asfNotifyMax

/-- One attempt at a request, up to the end of the listen window after it, if there is one. -/
structure Attempt where
  before : Transcript
  mastered : Transcript
  result : Int × SmbusData
  tried : Transcript
  after : Transcript

namespace Attempt

/-- The addresses recorded in the listen window. -/
def heard (t : Attempt) : List ℕ := (recorded t.after.past).drop (recorded t.tried.past).length

/-- The bus was lost, or the device did not answer and turned out to have sent a message. -/
def Lost (x : SmbusXfer) (t : Attempt) : Prop :=
  t.result.1 = -eagain ∨ t.result.1 = -enxio ∧ x.addr ∈ t.heard

/-- Master mode, the request as it came, and perhaps a listen window. -/
structure Made (h : Answers) (x : SmbusXfer) (t : Attempt) : Prop where
  master : Runs h (piix4AsfMasterMode x.smba) t.before () t.mastered
  access : Runs h (piix4Access x) t.mastered t.result t.tried
  window : t.after = t.tried ∨ ∃ n r, n.addr = recorded t.tried.past ∧
    Runs h (piix4Asf >>= fun _ => yieldBus x.smba n) t.tried r t.after

end Attempt

/-- The address of a request is loaded into the host registers. -/
def Exchange.loads (smba : ℕ) : Exchange → Bool
  | ⟨.outb _ port, _⟩ => port == smbHstAdd smba
  | _ => false

/-- From `y` to `z` no request is loaded into the host registers. -/
def Unloaded (smba : ℕ) (y z : Transcript) : Prop :=
  ∃ tail, z.past = y.past ++ tail ∧ ∀ e ∈ tail, e.loads smba = false

/-- The attempts `ts` at a request, with `left` retries at most, begin at `y` and answer `r`, and
none is made after them up to `z`. -/
structure Retried (h : Answers) (x : SmbusXfer) (want : Bool) (left : ℕ) (y : Transcript)
    (ts : List Attempt) (r : Int × SmbusData) (z : Transcript) : Prop where
  made : ∀ t ∈ ts, t.Made h x
  begins : ts.head?.map Attempt.before = some y
  chained : ts.IsChain fun t t' => t'.before = t.after
  few : ts.length ≤ left + 1
  again : ∀ j t, ts[j]? = some t → (j + 1 < ts.length ↔ j < left ∧ want = true ∧ t.Lost x)
  closes : ∃ t, ts.getLast? = some t ∧ t.result = r ∧ Unloaded x.smba t.after z

variable {h : Answers} {x : SmbusXfer} {y z w : Transcript} {want : Bool} {left : ℕ}

/-! ## Recorded addresses -/

/-- What is collected is recorded while there is room. -/
theorem Collects.recorded {d : List ℕ} {k : ℕ} {n : Notifies} (hz : Collects y z d k)
    (hn : n.addr = recorded y.past) : recorded z.past = (n.addr ++ d).take asfNotifyMax := by
  rw [hn, HostNotify.recorded, hz.decoded, HostNotify.recorded, take_take_append]

/-- What several drains collect is recorded while there is room. -/
theorem Collected.recorded {n n' : Notifies} {k : ℕ} (hz : Collected y z n n' k)
    (hn : n.addr = recorded y.past) : n'.addr = recorded z.past := by
  obtain ⟨d, m, hd, -, -, haddr⟩ := hz
  rw [haddr, hd.recorded hn]

/-! ## The data of an attempt -/

/-- The operation does not load a request into the host registers. -/
def Op.Spares (smba : ℕ) : Op → Prop
  | .outb _ port => port ≠ smbHstAdd smba
  | _ => True

/-- Two parts that load no address load none together. -/
theorem Unloaded.trans {smba : ℕ} (hyz : Unloaded smba y z) (hzw : Unloaded smba z w) :
    Unloaded smba y w := by
  obtain ⟨tail, hz, htail⟩ := hyz
  obtain ⟨tail', hw, htail'⟩ := hzw
  refine ⟨tail ++ tail', by rw [hw, hz, List.append_assoc], fun e he => ?_⟩
  exact (List.mem_append.mp he).elim (htail e) (htail' e)

section Spares

variable {smba : ℕ}

end Spares

/-! ## The attempts -/

section Sequences

variable {t : Attempt} {ts : List Attempt} {r : Int × SmbusData}

/-- An attempt that lost the bus, with the attempts after it. -/
theorem Retried.next (hmade : t.Made h x) (hwant : want = true) (hlost : t.Lost x)
    (hrest : Retried h x want left t.after ts r z) :
    Retried h x want (left + 1) t.before (t :: ts) r z := by
  obtain ⟨t', rest, rfl⟩ : ∃ t' rest, ts = t' :: rest := by
    cases ts with
    | nil => exact absurd hrest.begins (by simp)
    | cons t' rest => exact ⟨t', rest, rfl⟩
  exact {
    made := fun t'' ht => (List.mem_cons.mp ht).elim (fun heq => heq ▸ hmade) (hrest.made t'')
    begins := rfl
    chained := .cons_cons (Option.some.inj hrest.begins) hrest.chained
    few := Nat.succ_le_succ hrest.few
    again := fun j t'' ht => by
      cases j with
      | zero =>
        cases ht
        exact ⟨fun _ => ⟨Nat.succ_pos left, hwant, hlost⟩, fun _ => by simp⟩
      | succ j =>
        exact Nat.succ_lt_succ_iff.trans ((hrest.again j t'' ht).trans
          (and_congr_left' Nat.succ_lt_succ_iff.symm))
    closes := by
      rw [List.getLast?_cons_cons]
      exact hrest.closes }

/-- What follows the attempts changes nothing about them. -/
theorem Retried.trans (hts : Retried h x want left y ts r z) (hzw : Unloaded x.smba z w) :
    Retried h x want left y ts r w := by
  obtain ⟨t, hlast, hr, hz⟩ := hts.closes
  exact ⟨hts.made, hts.begins, hts.chained, hts.few, hts.again, t, hlast, hr, hz.trans hzw⟩

end Sequences

/-- The byte this operation writes to a port. -/
def Exchange.writes (port : ℕ) : Exchange → Option Byte
  | ⟨.outb v p, _⟩ => if p = port then some v else none
  | _ => none

/-- The dword this operation writes to DecodeEn. -/
def Exchange.writesDword : Exchange → Option (BitVec 32)
  | ⟨.iowrite32 v, _⟩ => some v
  | _ => none

/-- The byte last written to a port. -/
def lastOut (port : ℕ) (l : List Exchange) : Option Byte := (l.filterMap (Exchange.writes port)).getLast?

/-- The dword last written to DecodeEn. -/
def lastDword (l : List Exchange) : Option (BitVec 32) := (l.filterMap Exchange.writesDword).getLast?

/-- The registers of the slave as last written: listening at the host address, out of reset, its
interrupt enabled, port 0x07 routed to the banks, master mode off and the clock on. -/
structure LeftArmed (smba : ℕ) (l : List Exchange) : Prop where
  lisaddr : lastOut (asfLisAddr smba) l = some 0x11
  slven : ∃ v, lastOut (asfSlvEn smba) l = some v ∧ getElem v 4 (fits rfl) = false ∧
    getElem v 1 (fits rfl) = true
  bnksel : ∃ v, lastOut (asfDataBnkSel smba) l = some v ∧ getElem v 7 (fits rfl) = false
  decodeEn : ∃ v, lastDword l = some v ∧ getElem v 16 (fits rfl) = false ∧ getElem v 17 (fits rfl) = true

/-- From `y` to `z` nothing is written. -/
structure Unwritten (y z : Transcript) : Prop where
  out : ∀ p, lastOut p z.past = lastOut p y.past
  dword : lastDword z.past = lastDword y.past
  asf : z.asf = y.asf

/-- Nothing is written where nothing happens. -/
theorem Unwritten.refl (y : Transcript) : Unwritten y y := ⟨fun _ => rfl, rfl, rfl⟩

/-- Two parts that write nothing write nothing together. -/
theorem Unwritten.trans (hyz : Unwritten y z) (hzw : Unwritten z w) : Unwritten y w :=
  ⟨fun p => (hzw.out p).trans (hyz.out p), hzw.dword.trans hyz.dword, hzw.asf.trans hyz.asf⟩

/-- Port 0x07 was last routed to the host FIFO. -/
def RoutedToHost (smba : ℕ) (l : List Exchange) : Prop :=
  ∃ v, lastOut (asfDataBnkSel smba) l = some v ∧ v.getLsbD 7 = true

/-- A slave left armed stays so while nothing is written. -/
theorem LeftArmed.keep {smba : ℕ} (hy : LeftArmed smba y.past) (hz : Unwritten y z) :
    LeftArmed smba z.past := by
  obtain ⟨hlisaddr, hslven, hbnksel, hdecodeEn⟩ := hy
  refine ⟨(hz.out _).trans hlisaddr, ?_, ?_, ?_⟩
  · rw [hz.out]
    exact hslven
  · rw [hz.out]
    exact hbnksel
  · rw [hz.dword]
    exact hdecodeEn

/-- The routing of port 0x07 stays while nothing is written. -/
theorem RoutedToHost.keep {smba : ℕ} (hy : RoutedToHost smba y.past) (hz : Unwritten y z) :
    RoutedToHost smba z.past := by
  unfold RoutedToHost
  rw [hz.out]
  exact hy

/-- A request for the FCH PM region, or its mapping, is turned down. -/
def Exchange.refuses : Exchange → Bool
  | ⟨.requestMemRegionMuxed, r⟩ => !r
  | ⟨.ioremap, r⟩ => !r
  | ⟨.requestMuxedRegion _ _, r⟩ => !r
  | _ => false

end HostNotify
