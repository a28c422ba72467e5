import HostNotify.Balance
import HostNotify.Interleaving.Waiting
import HostNotify.Listening

/-!
# The locking cannot deadlock

The two mutexes and the muxed regions are taken in one order by everybody but
`piix4_asf_enable`, which takes `piix4_asf_mutex` last. It is alone with it: no adapter is
registered yet and no IRQ requested.
-/

namespace HostNotify

open Bits Interleaving

variable {k : Setting} {b : Board} {p : Pool St Op Op.Ans Call} {s : St} {t u i j : ℕ} {m : Hand}
  {o : Op}

/-- The operation has to wait until thread `j` gives something up or comes to its end. -/
def Op.WaitsFor (j : ℕ) (s : St) : Op → Prop
  | .lock .asf => s.mutex = some j
  | .lock .notify => s.notifyMutex = some j
  | .requestMemRegionMuxed => s.region = some j
  | .requestMuxedRegion start _ => s.muxed start = some j
  | .freeIrq => s.irq.running = some j
  | .i2cDelAdapter => j ∈ s.life.aux
  | _ => False

/-- Thread `i` waits for thread `j`. -/
def Waits (p : Pool St Op Op.Ans Call) (i j : ℕ) : Prop :=
  ∃ c o, p.next i = some (c, o) ∧ o.WaitsFor j p.shared

/-- An operation that cannot be carried out waits for a thread, or for the IRQ thread, which may begin. -/
theorem blocked_waits (h : exec b t o s = none) :
    (∃ j, o.WaitsFor j s) ∨ (enter k b .irqThread u s).isSome = true := by
  cases o with
  | lock l =>
    simp only [exec] at h
    split at h
    · cases h
    · next hheld =>
      obtain ⟨j, hj⟩ := Option.ne_none_iff_exists'.mp hheld
      cases l <;> exact Or.inl ⟨j, hj⟩
  | requestMemRegionMuxed =>
    simp only [exec] at h
    split at h
    · next hheld => exact Or.inl (Option.ne_none_iff_exists'.mp hheld)
    · split at h <;> cases h
  | requestMuxedRegion start len =>
    simp only [exec] at h
    split at h
    · next hheld => exact Or.inl (Option.ne_none_iff_exists'.mp hheld)
    · split at h <;> cases h
  | freeIrq =>
    simp only [exec] at h
    split at h
    · next hmasked =>
      cases hrunning : s.irq.running with
      | some j => exact Or.inl ⟨j, hrunning⟩
      | none =>
        have hwoken : s.irq.woken = true := by simpa [IrqLine.masked, hrunning] using hmasked
        exact Or.inr (by simp [enter, hwoken, hrunning])
    · cases h
  | i2cDelAdapter =>
    simp only [exec] at h
    split at h
    · cases h
    · next hbusy => exact Or.inl (List.exists_mem_of_ne_nil _ hbusy)
  | requestRegion start len =>
    simp only [exec] at h
    split at h <;> cases h
  | _ => cases h

/-- The order in which a thread may wait. -/
def Op.rank : Op → ℕ
  | .lock .notify => 1
  | .requestMuxedRegion start _ => if start = imcIdx then 1 else 2
  | .requestMemRegionMuxed => 2
  | .lock .asf => 3
  | .freeIrq | .i2cDelAdapter => 4
  | _ => 0

/-- What an account holds bounds the rank of the operations it permits. -/
structure Hand.Ranks (m : Hand) (o : Op) : Prop where
  notify : m.notify = true → o.rank = 0
  imc : m.imc = true → o.rank = 0
  pm : m.pm = true → o.rank ≤ 1
  region : m.region ≠ none → o.rank ≤ 1 ∨ (o = .lock .asf ∧ m.Owns fun _ v => v.enabling = true)
  asf : m.asf = true → o.rank ≤ 2
  busy : m.role = .aux ∨ m.role = .thread → o.rank ≤ 3

/-- Of nothing that is held nothing has to be given up first. -/
theorem Hand.Free.ranks (h : m.Free) (hbusy : m.role = .aux ∨ m.role = .thread → o.rank ≤ 3) :
    m.Ranks o where
  notify hn := absurd (hn.symm.trans h.notify) (by decide)
  imc hi := absurd (hi.symm.trans h.imc) (by decide)
  pm hp := absurd (hp.symm.trans h.pm) (by decide)
  region hr := absurd h.region hr
  asf ha := absurd (ha.symm.trans h.asf) (by decide)
  busy := hbusy

/-- An account allows only operations above what it has taken. -/
theorem Hand.ranks (h : m.allows k b o) : m.Ranks o := by
  have hcore : ∀ {P : CoreCall → Estate → Prop} {n : ℕ}, m.Owns P → m.role = .aux ∨ m.role = .thread → n ≤ 3 := by
    rintro P n ⟨c, v, hrole, _⟩ hbusy
    rcases hbusy with hb | hb <;> exact nomatch hrole.symm.trans hb
  cases o with
  | lock l =>
    cases l with
    | asf =>
      obtain ⟨hasf, hnotify, hpm, himc, hregion⟩ := h
      exact {
        notify := fun hn => absurd (hn.symm.trans hnotify) (by decide)
        imc := fun hi => absurd (hi.symm.trans himc) (by decide)
        pm := fun hp => absurd (hp.symm.trans hpm) (by decide)
        region := fun hr => Or.inr ⟨rfl, hregion.resolve_left hr⟩
        asf := fun ha => absurd (ha.symm.trans hasf) (by decide)
        busy := fun _ => le_rfl }
    | notify => exact Hand.Free.ranks h fun _ => by decide
  | requestMemRegionMuxed =>
    obtain ⟨hnotify, hregion, hpm, himc⟩ := h
    exact {
      notify := fun hn => absurd (hn.symm.trans hnotify) (by decide)
      imc := fun hi => absurd (hi.symm.trans himc) (by decide)
      pm := fun hp => absurd (hp.symm.trans hpm) (by decide)
      region := fun hr => absurd hregion hr
      asf := fun _ => le_rfl
      busy := fun _ => by decide }
  | requestMuxedRegion start len =>
    obtain ⟨_, hasf, hnotify, hfirst | ⟨hstart, himc⟩⟩ := h
    · obtain ⟨_, hpm, himc, hregion⟩ := hfirst
      refine Hand.Free.ranks ⟨hasf, hnotify, hregion, hpm, himc⟩ fun _ => ?_
      simp only [Op.rank]
      split <;> decide
    · have hrank : Op.rank (.requestMuxedRegion start len) = 1 := if_pos hstart
      exact {
        notify := fun hn => absurd (hn.symm.trans hnotify) (by decide)
        imc := fun hi => absurd (hi.symm.trans himc) (by decide)
        pm := fun _ => hrank.le
        region := fun _ => Or.inl hrank.le
        asf := fun ha => absurd (ha.symm.trans hasf) (by decide)
        busy := fun _ => hrank.le.trans (by decide) }
  | freeIrq => exact Hand.Free.ranks h.1 (hcore h.2)
  | i2cDelAdapter => exact Hand.Free.ranks h.1 (hcore h.2)
  | _ =>
    exact ⟨fun _ => rfl, fun _ => rfl, fun _ => Nat.zero_le _, fun _ => Or.inl (Nat.zero_le _),
      fun _ => Nat.zero_le _, fun _ => Nat.zero_le _⟩

/-- While probe is claiming the block nobody else can hold its mutex. -/
theorem claiming_alone (hinv : Inv k b s) (htie : Tie k b t m s) (hen : s.life.enabling = true)
    (howner : s.life.owner = some t) (hasf : m.asf = false) (hheld : s.mutex = some u) : False := by
  obtain ⟨haux, hmasked⟩ := hinv.alone hen
  rcases hinv.locked u hheld with hu | hu | hu
  · rw [haux] at hu
    exact nomatch hu
  · simp [IrqLine.masked, hu] at hmasked
  · obtain rfl := Option.some.inj (howner.symm.trans hu)
    exact absurd ((htie.mutex.mp hheld).symm.trans hasf) (by decide)

/-- Whoever is waited for and waits itself does so at a lower rank. -/
theorem rank_falls (h : p.Reachable (machine k b) (Unbound k)) {c c' : Call} {o' : Op}
    (hi : p.next i = some (c, o)) (hwait : o.WaitsFor j p.shared) (hj : p.next j = some (c', o'))
    (hwait' : ∃ l, o'.WaitsFor l p.shared) : o'.rank < o.rank := by
  obtain ⟨m, _, htie, hallow⟩ := (covers h).next_allowed hj
  have hranks := Hand.ranks hallow
  cases o with
  | lock l =>
    cases l with
    | asf => exact Nat.lt_succ_of_le (hranks.asf (htie.mutex.mp hwait))
    | notify => exact Nat.lt_succ_of_le (hranks.notify (htie.notify.mp hwait)).le
  | requestMemRegionMuxed =>
    rcases hranks.region (htie.region.mp hwait) with hrank | ⟨rfl, c₀, v, hrole, hen⟩
    · exact Nat.lt_succ_of_le hrank
    · obtain ⟨l, hl⟩ := hwait'
      have hen' := (congrArg Estate.enabling (htie.estate c₀ v hrole)).trans hen
      exact (claiming_alone (reachable_inv h) htie hen' (htie.owner.mpr ⟨c₀, v, hrole, trivial⟩) hallow.1
        hl).elim
  | requestMuxedRegion start len =>
    obtain ⟨m₀, _, _, hallow₀⟩ := (covers h).next_allowed hi
    have hwait : p.shared.muxed start = some j := hwait
    rcases hallow₀.2.2.2 with ⟨rfl, _⟩ | ⟨rfl, _⟩
    · exact Nat.lt_succ_of_le (hranks.pm (htie.pm.mp hwait))
    · exact Nat.lt_succ_of_le (hranks.imc (htie.imc.mp hwait)).le
  | freeIrq => exact Nat.lt_succ_of_le (hranks.busy (Or.inr (htie.thread.mp hwait)))
  | i2cDelAdapter => exact Nat.lt_succ_of_le (hranks.busy (Or.inl (htie.aux.mp hwait)))
  | _ => exact absurd hwait id

/-- The rank of a thread's next operation. -/
def rankOf (p : Pool St Op Op.Ans Call) (i : ℕ) : ℕ :=
  match p.next i with
  | some (_, o) => o.rank
  | none => 0

/-- The rank of a thread is that of its next operation. -/
theorem rankOf_next {c : Call} (h : p.next i = some (c, o)) : rankOf p i = o.rank := by
  unfold rankOf
  rw [h]

/-- The operations of the hard handler, none of which can be blocked. -/
def Op.Immediate : Op → Prop
  | .inb _ | .outb _ _ | .asf | .setAsf _ => True
  | _ => False

/-- The hard handler never waits. -/
theorem handler_immediate : piix4AsfIrqHandler.AllOps Op.Immediate := by
  refine ⟨trivial, fun a => ⟨trivial, fun sta => ?_⟩⟩
  dsimp only [Prog.bind]
  split
  · refine ⟨trivial, fun x => ?_⟩
    dsimp only [Prog.bind]
    split
    · exact trivial
    · exact ⟨trivial, fun _ => trivial⟩
  · refine ⟨trivial, fun _ => ⟨trivial, fun a' => ?_⟩⟩
    dsimp only [Prog.bind]
    split
    · exact ⟨trivial, fun _ => ⟨trivial, fun _ => trivial⟩⟩
    · exact ⟨trivial, fun _ => trivial⟩

/-- The hard handler waits for nobody. -/
theorem handler_runs (b : Board) (t : ℕ) (s : St) :
    ∃ r s', piix4AsfIrqHandler.runAlone (exec b t) s = some (r, s') := by
  refine handler_immediate.runs (fun o s ho => ?_) s
  cases o with
  | inb | outb | asf | setAsf => exact ⟨_, _, rfl⟩
  | _ => exact absurd ho id

/-- No set of threads can come to wait for each other; a thread that cannot go on waits for another, or
for an IRQ thread that may begin; and the hard handler, for which some of them may have to wait, always
runs to its end. -/
theorem deadlock_free (h : p.Reachable (machine k b) (Unbound k)) :
    (∀ D : Set ℕ, ¬ Deadlocked (Waits p) D) ∧
      (∀ i c o, p.next i = some (c, o) → exec b i o p.shared = none →
        (∃ j, Waits p i j) ∨ (enter k b .irqThread p.threads.length p.shared).isSome = true) ∧
      ∀ t s, ∃ r s', piix4AsfIrqHandler.runAlone (exec b t) s = some (r, s') := by
  refine ⟨not_deadlocked (rankOf p) fun i j l => ?_, fun i c o hi hblocked => ?_, handler_runs b⟩
  · rintro ⟨c, o, hi, hwait⟩ ⟨c', o', hj, hwait'⟩
    rw [rankOf_next hi, rankOf_next hj]
    exact rank_falls h hi hwait hj ⟨l, hwait'⟩
  · exact (blocked_waits hblocked).imp_left (Exists.imp fun j hwait => ⟨c, o, hi, hwait⟩)

/-- A transfer has taken the mutex when another begins. -/
def queuedTransfers : List (Action Call Event) :=
  bringUp ++ .call (.transfer readByte2c) :: advance 3 2 ++ [.call (.transfer readByte2c)]

/-- Thread `i` cannot go on. -/
def blocked (p : Pool St Op Op.Ans Call) (i : ℕ) : Bool :=
  match p.next i with
  | some (_, o) => (exec Board.described i o p.shared).isNone
  | none => false

/-- The thread has an operation before it that cannot be executed. -/
theorem blocked_some (h : blocked p i = true) :
    ∃ c o, p.next i = some (c, o) ∧ exec Board.described i o p.shared = none := by
  unfold blocked at h
  split at h
  · next c o hnext => exact ⟨c, o, hnext, Option.isNone_iff_eq_none.mp h⟩
  · cases h

/-- The second transfer waits for the first, and nobody waits in a circle. -/
theorem deadlock_free_queued : ∃ p, outcome Setting.all queuedTransfers = some p ∧
    (∃ j, Waits p 4 j) ∧ ∀ D : Set ℕ, ¬ Deadlocked (Waits p) D := by
  obtain ⟨p, hp, hstate⟩ := exists_outcome Setting.all queuedTransfers
    (fun p => blocked p 4 && !p.shared.irq.woken) (by decide +kernel)
  rw [Bool.and_eq_true, Bool.not_eq_true'] at hstate
  obtain ⟨c, o, hnext, hblocked⟩ := blocked_some hstate.1
  obtain ⟨hfree, hwaits, -⟩ := deadlock_free (outcome_reachable hp)
  refine ⟨p, hp, (hwaits 4 c o hnext hblocked).resolve_right fun henter => ?_, hfree⟩
  simp [enter, hstate.2] at henter

end HostNotify
