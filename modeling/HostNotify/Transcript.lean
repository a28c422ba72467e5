import HostNotify.Asf
import HostNotify.Interleaving.Alone

/-!
# Transcripts

A call on its own, with everything outside the driver's global answering as it likes: hardware,
firmware and the rest of the kernel are one function of what has happened so far. The operations
with their answers are written down.
-/

namespace HostNotify

open Bits Interleaving

/-- An operation and its answer. -/
abbrev Exchange := (o : Op) × o.Ans

/-- What the driver is told, given what has happened. -/
abbrev Answers := List Exchange → (o : Op) → o.Ans

/-- The driver's global and what has happened. -/
structure Transcript where
  asf : Piix4Asf
  past : List Exchange

/-- What an operation stores in the driver's global. -/
def Op.store : Op → Piix4Asf → Piix4Asf
  | .setAsf f, a => f a
  | .xchgPending v, a => { a with pending := v }
  | _, a => a

namespace Transcript

/-- The driver finds its global as it left it; everything else is up to `h`. -/
def answer (h : Answers) (y : Transcript) : (o : Op) → o.Ans
  | .asf => y.asf
  | o => h y.past o

/-- One operation, written down. -/
def next (h : Answers) (o : Op) (y : Transcript) : Transcript :=
  { asf := o.store y.asf, past := y.past ++ [⟨o, y.answer h o⟩] }

/-- One operation. -/
def exec (h : Answers) (o : Op) (y : Transcript) : Option (o.Ans × Transcript) :=
  some (y.answer h o, y.next h o)

end Transcript

/-! ## Transcripts of the system -/

/-- Some answer. -/
def Op.nothing (o : Op) : o.Ans := by
  cases o
  all_goals first
    | exact ()
    | exact (0 : Byte)
    | exact (0 : BitVec 32)
    | exact (0 : Int)
    | exact false
    | exact Piix4Asf.loaded
    | exact []

section System

variable {b : Board} {t : ℕ}

/-- An operation leaves in the driver's global what it stores there. -/
theorem exec_store {o : Op} {s s' : St} {r : o.Ans} (h : exec b t o s = some (r, s')) :
    s'.asf = o.store s.asf := by
  cases o with
  | inb port =>
    simp only [exec, Option.some.injEq, St.portRead] at h
    split at h
    · obtain rfl := (Prod.mk.inj h).2
      rfl
    · obtain rfl := (Prod.mk.inj h).2
      rfl
  | outb v port =>
    simp only [exec, Option.some.injEq, St.portWrite, Prod.mk.injEq, true_and] at h
    subst h
    split <;> rfl
  | lock l =>
    simp only [exec] at h
    split at h
    · cases h
      cases l <;> rfl
    · cases h
  | unlock l =>
    cases h
    cases l <;> rfl
  | requestMemRegionMuxed =>
    simp only [exec] at h
    split at h
    · cases h
    · split at h <;> cases h <;> rfl
  | requestMuxedRegion start len =>
    simp only [exec] at h
    split at h
    · cases h
    · split at h <;> cases h <;> rfl
  | requestRegion start len =>
    simp only [exec] at h
    split at h <;> cases h <;> rfl
  | freeIrq =>
    simp only [exec] at h
    split at h
    · cases h
    · cases h
      rfl
  | i2cDelAdapter =>
    simp only [exec] at h
    split at h
    · cases h
      rfl
    · cases h
  | _ =>
    cases h
    rfl

/-- The system after the given operations of thread `t`. -/
def replay (b : Board) (t : ℕ) (s : St) (past : List Exchange) : Option St :=
  past.foldlM (fun s e => (exec b t e.1 s).map Prod.snd) s

/-- What the system answers thread `t`, which runs alone from `s`. -/
def St.answers (b : Board) (t : ℕ) (s : St) : Answers := fun past o =>
  (((replay b t s past).bind fun s' => exec b t o s').map Prod.fst).getD o.nothing

/-- A call that runs to its end in the system has a transcript. -/
theorem runAlone_transcript {A : Type} {p : Driver A} {s s' : St} {a : A}
    (h : p.runAlone (exec b t) s = some (a, s')) :
    ∃ past, p.runAlone (Transcript.exec (s.answers b t)) ⟨s.asf, []⟩ = some (a, ⟨s'.asf, past⟩) := by
  -- the system is where the transcript says
  have hgen : ∀ (p : Driver A) (s₁ : St) (y : Transcript), replay b t s y.past = some s₁ →
      y.asf = s₁.asf → p.runAlone (exec b t) s₁ = some (a, s') →
      ∃ past, p.runAlone (Transcript.exec (s.answers b t)) y = some (a, ⟨s'.asf, past⟩) := by
    intro p
    induction p with
    | ret c =>
      rintro s₁ ⟨asf, past⟩ - hasf hrun
      simp only [Prog.runAlone, Option.some.injEq, Prod.mk.injEq] at hrun
      obtain ⟨rfl, rfl⟩ := hrun
      refine ⟨past, ?_⟩
      rw [← hasf]
      rfl
    | op o next ih =>
      intro s₁ y hreplay hasf hrun
      simp only [Prog.runAlone] at hrun
      split at hrun
      · cases hrun
      · next r s₂ hexec =>
        have hanswer : y.answer (s.answers b t) o = r := by
          have hask : s.answers b t y.past o = r := by
            simp [St.answers, hreplay, hexec]
          cases o with
          | asf =>
            cases hexec
            exact hasf
          | _ => exact hask
        have hreplay' : replay b t s (y.past ++ [⟨o, r⟩]) = some s₂ := by
          have hprefix : y.past.foldlM (fun s e => (exec b t e.1 s).map Prod.snd) s = some s₁ := hreplay
          simp [replay, List.foldlM_append, hprefix, hexec]
        obtain ⟨past, hrest⟩ := ih r s₂ (y.next (s.answers b t) o)
          (by rw [Transcript.next, hanswer]; exact hreplay')
          ((congrArg o.store hasf).trans (exec_store hexec).symm) hrun
        refine ⟨past, ?_⟩
        rw [Prog.runAlone, Transcript.exec, hanswer]
        exact hrest
  exact hgen p s ⟨s.asf, []⟩ rfl rfl h

end System

end HostNotify
