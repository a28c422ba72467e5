import HostNotify.Balance
import HostNotify.Listening

/-!
# What is shared with the firmware and the main port

DecodeEn belongs to the main port's selection and to the mode bits of the target block at once,
and every register of the block to the firmware once the driver has let go of it.
-/

namespace HostNotify

open Bits Interleaving

variable {k : Setting} {b : Board} {p : Pool St Op Op.Ans Call} {i : ℕ}

/-! ## DecodeEn -/

/-- The bits of DecodeEn as it is meant to be. -/
theorem Ghost.due_bits (g : Ghost) :
    getElem g.due 16 (fits rfl) = g.wrote.1 ∧ getElem g.due 17 (fits rfl) = g.wrote.2 ∧
      ∀ j, (hj : j < 32) → j ≠ 16 → j ≠ 17 → g.due[j] = g.firmware[j] := by
  refine ⟨?_, ?_, fun j hj h16 h17 => ?_⟩
  · simp [Ghost.due, getElem_assignBit]
  · simp [Ghost.due, getElem_assignBit]
  · simp [Ghost.due, getElem_assignBit, Ne.symm h16, Ne.symm h17]

/-- An access of DecodeEn, by a byte or by a dword. -/
def Op.OnDecodeEn : Op → Prop
  | .ioread32 | .iowrite32 _ | .ioread8 _ | .iowrite8 _ _ => True
  | _ => False

/-- Every access of DecodeEn is made by the thread that holds the FCH PM region. Whenever the
region is free, the mode bits are as the driver wrote them last and all others as the firmware
left them. -/
theorem decodeEn_undisturbed (hk : k.Spares)
    (h : p.Reachable (machine k b) (Unbound k)) :
    (∀ i c o, p.next i = some (c, o) → o.OnDecodeEn → p.shared.region = some i) ∧
      (p.shared.region = none →
        getElem p.shared.hw.decodeEn 16 (fits rfl) = p.shared.ghost.wrote.1 ∧
        getElem p.shared.hw.decodeEn 17 (fits rfl) = p.shared.ghost.wrote.2 ∧
        ∀ j, (hj : j < 32) → j ≠ 16 → j ≠ 17 →
          p.shared.hw.decodeEn[j] = p.shared.ghost.firmware[j]) := by
  have hcovers := covers h
  refine ⟨fun i c o hnext ho => ?_, fun hfree => ?_⟩
  · obtain ⟨m, _, htie, hallow⟩ := hcovers.next_allowed hnext
    have hheld : m.region ≠ none := by
      cases o with
      | ioread32 => exact hallow
      | ioread8 offset => exact hallow
      | iowrite32 d => exact hallow.1
      | iowrite8 v offset => exact hallow.1
      | _ => exact absurd ho id
    exact htie.region.mpr hheld
  · rw [hcovers.inv.released hk hfree]
    exact p.shared.ghost.due_bits

/-- A byte read on port 1 of the main adapter is about to select the port again that it found. -/
def selecting : List (Action Call Event) :=
  bringUp ++ [.event (.world { St.loaded.world with bus := 0x10 }), .call (.mainTransfer
    { smba := 0xb00, useMmio := true, notifyImc := false, port := 0x08 }
    { readByte2c with smba := 0xb00 })] ++ advance 3 15

/-- Thread `i` is about to write a byte of DecodeEn. -/
def switchesNext (p : Pool St Op Op.Ans Call) (i : ℕ) : Bool :=
  match p.next i with
  | some (_, .iowrite8 _ _) => true
  | _ => false

/-- The thread is about to write a byte of DecodeEn. -/
theorem switchesNext_some (h : switchesNext p i = true) : ∃ c v offset, p.next i = some (c, .iowrite8 v offset) := by
  unfold switchesNext at h
  split at h
  · next c v offset hnext => exact ⟨c, v, offset, hnext⟩
  · cases h

/-- The port is selected within the region, and the other bits are firmware's. -/
theorem decodeEn_undisturbed_selecting :
    ∃ p q, outcome { Setting.all with intrude := false } selecting = some p ∧
      outcome { Setting.all with intrude := false } (selecting ++ advance 3 3) = some q ∧
      p.shared.region = some 3 ∧
      getElem q.shared.hw.decodeEn 16 (fits rfl) = q.shared.ghost.wrote.1 ∧
      getElem q.shared.hw.decodeEn 17 (fits rfl) = q.shared.ghost.wrote.2 ∧
      ∀ j, (hj : j < 32) → j ≠ 16 → j ≠ 17 → q.shared.hw.decodeEn[j] = q.shared.ghost.firmware[j] := by
  obtain ⟨p, hp, hswitches⟩ := exists_outcome { Setting.all with intrude := false } selecting
    (fun p => switchesNext p 3) (by decide +kernel)
  obtain ⟨q, hq, hfree⟩ := exists_outcome { Setting.all with intrude := false } (selecting ++ advance 3 3)
    (fun q => q.shared.region.isNone) (by decide +kernel)
  obtain ⟨c, v, offset, hnext⟩ := switchesNext_some hswitches
  have hheld := (decodeEn_undisturbed (Or.inl rfl) (outcome_reachable hp)).1 3 c _ hnext trivial
  have hbits := (decodeEn_undisturbed (Or.inl rfl) (outcome_reachable hq)).2
    (Option.isNone_iff_eq_none.mp hfree)
  exact ⟨p, q, hp, hq, hheld, hbits⟩

/-! ## The firmware's state -/

/-- Thread `i` is about to return from `piix4_asf_disable`. -/
def endsDisable (p : Pool St Op Op.Ans Call) (i : ℕ) : Bool :=
  match p.next i with
  | some (.core .disable, .coreDone .disable) => true
  | _ => false

/-- The thread is at the end of disable. -/
theorem endsDisable_some (h : endsDisable p i = true) :
    p.next i = some (.core .disable, .coreDone .disable) := by
  unfold endsDisable at h
  split at h
  · assumption
  · cases h

/-- The device is brought up, sleeps while firmware rewrites the block, wakes up, and the driver is
unloaded. -/
def unloaded : List (Action Call Event) :=
  bringUp ++ .call (.core .suspend) :: advance 3 22 ++
    .event (.firmware { Target.idle with lisaddr := 0x20, slven := 0x10, decodeEn := 0x20020 }) ::
    .call (.core .resume) :: advance 4 36 ++ .call (.core .disable) :: advance 5 71

end HostNotify
