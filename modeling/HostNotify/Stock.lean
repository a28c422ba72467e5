import HostNotify.Overrun
import HostNotify.Interleaving.Alike

/-!
# The driver without a target block

Where the ASF block is not active the patched driver issues the operations of the pristine one,
request by request, and leaves the same data. The error codes differ in one place: a collision on
the bus, which every adapter reports as `-EAGAIN` now.
-/

namespace HostNotify

open Bits Interleaving

/-! ## Adapters -/

/-- What `piix4_add_adapter` registers while the block is not active: an adapter of the multiplexed
main port, or one that uses `smbus_algorithm`. -/
inductive Adapter where
  | main (g : PortGlobals) (a : MainAdapter)
  | plain (smba : ℕ)

namespace Adapter

def smba : Adapter → ℕ
  | main _ a => a.smba
  | plain smba => smba

end Adapter

/-- A host status with the collision bit has been read. -/
def Collided (smba : ℕ) (own : List Exchange) : Prop :=
  ∃ sts : Byte, (⟨.inb (smbHstSts smba), sts⟩ : Exchange) ∈ own ∧ sts &&& bit 3 ≠ 0

/-- The error code of the pristine driver and that of the patched one. -/
def SameCode (smba : ℕ) (own : List Exchange) (e e' : Int) : Prop :=
  e' = e ∨ ((e = -eio ∨ e = -enxio) ∧ e' = -eagain ∧ Collided smba own)

/-- What the two drivers make of one request. -/
structure Answered (smba : ℕ) (own : List Exchange) (r r' : Int × SmbusData) : Prop where
  code : SameCode smba own r.1 r'.1
  data : r'.2 = r.2

variable {A : Type} {smba : ℕ} {own own' past : List Exchange} {r r' : Int × SmbusData} {e e' : Int}

/-- A collision seen in a part of the transcript is seen in the whole. -/
theorem Collided.mono (h : Collided smba own) (hsub : ∀ x ∈ own, x ∈ own') : Collided smba own' := by
  obtain ⟨sts, hsts, hbit⟩ := h
  exact ⟨sts, hsub _ hsts, hbit⟩

/-- Two codes that agree for a part of the transcript agree for the whole. -/
theorem SameCode.mono (h : SameCode smba own e e') (hsub : ∀ x ∈ own, x ∈ own') :
    SameCode smba own' e e' :=
  h.imp id fun h => ⟨h.1, h.2.1, h.2.2.mono hsub⟩

section Inactive

variable {h : Answers} {a : Piix4Asf} (ha : a.active = false)
include ha

end Inactive

/-! ## The two drivers -/

end HostNotify
