import Mathlib.Logic.Function.Basic
import Mathlib.Data.List.GetD
import Mathlib.Data.Nat.Notation
import Mathlib.Order.Basic
import Mathlib.Order.Nat

/-!
# Register files

A register file answers reads and writes of one register at a time. A block transfer covers
registers in a row and may stop early; `Transfer.Step` says what it does when nothing comes
between, and `History` is a whole history of such transfers. An implementation that carries a block
out access by access is compared with these.
-/

namespace RegisterFile

variable {A V : Type} {regs regs' regs'' : A → V} {addr : A} {xs ys : List V}

/-- One access to one register. -/
inductive Access (A V : Type) where
  | read (addr : A) (v : V)
  | write (addr : A) (v : V)
  deriving DecidableEq

section Rows

variable [Add A] [One A]

/-- The address `n` registers on. -/
def onward (addr : A) : ℕ → A
  | 0 => addr
  | n + 1 => onward (addr + 1) n

/-- Accesses to registers in a row. -/
def row (access : A → V → Access A V) (addr : A) : List V → List (Access A V)
  | [] => []
  | v :: rest => access addr v :: row access (addr + 1) rest

/-- The values of `n` registers in a row. -/
def readRow (regs : A → V) (addr : A) : ℕ → List V
  | 0 => []
  | n + 1 => regs addr :: readRow regs (addr + 1) n

/-- A row of registers has as many values as it has registers. -/
@[simp] theorem length_readRow (n : ℕ) : (readRow regs addr n).length = n := by
  induction n generalizing addr with
  | zero => rfl
  | succ n ih => rw [readRow, List.length_cons, ih]

/-- Accesses in a row continue where the first part ends. -/
theorem row_append (access : A → V → Access A V) :
    row access addr (xs ++ ys) = row access addr xs ++ row access (onward addr xs.length) ys := by
  induction xs generalizing addr with
  | nil => rfl
  | cons v rest ih => simp only [List.cons_append, row, List.length_cons, onward, ih]

variable [DecidableEq A]

/-- The registers after a row of them has been written, in this order. -/
def writeRow (regs : A → V) (addr : A) : List V → A → V
  | [] => regs
  | v :: rest => writeRow (Function.update regs addr v) (addr + 1) rest

end Rows

section Histories

variable [DecidableEq A]

/-- The accesses take the registers from the first state to the second, every read seeing what is
there. -/
def Takes (regs : A → V) : List (Access A V) → (A → V) → Prop
  | [], regs' => regs = regs'
  | .read addr v :: rest, regs' => regs addr = v ∧ Takes regs rest regs'
  | .write addr v :: rest, regs' => Takes (Function.update regs addr v) rest regs'

/-- One history may follow another. -/
theorem Takes.append {l l' : List (Access A V)} (h : Takes regs l regs') (h' : Takes regs' l' regs'') :
    Takes regs (l ++ l') regs'' := by
  induction l generalizing regs with
  | nil => exact h ▸ h'
  | cons a rest ih =>
    cases a with
    | read addr v => exact ⟨h.1, ih h.2⟩
    | write addr v => exact ih h

variable [Add A] [One A]

/-- Reads of a row find the registers as they are. -/
theorem takes_readRow (regs : A → V) (addr : A) (n : ℕ) :
    Takes regs (row .read addr (readRow regs addr n)) regs := by
  induction n generalizing addr with
  | zero => rfl
  | succ n ih => exact ⟨rfl, ih _⟩

/-- What reads of a row can have seen. -/
theorem Takes.of_reads (h : Takes regs (row .read addr xs) regs') :
    regs' = regs ∧ xs = readRow regs addr xs.length := by
  induction xs generalizing addr with
  | nil => exact ⟨h.symm, rfl⟩
  | cons v rest ih =>
    obtain ⟨hv, hrest⟩ := h
    obtain ⟨hregs, hrest⟩ := ih hrest
    exact ⟨hregs, by rw [List.length_cons, readRow, hv, ← hrest]⟩

/-- Writing a row takes the registers where one is written after another. -/
theorem takes_writeRow (regs : A → V) (addr : A) (xs : List V) :
    Takes regs (row .write addr xs) (writeRow regs addr xs) := by
  induction xs generalizing regs addr with
  | nil => rfl
  | cons v rest ih => exact ih _ _

/-- What writes to a row have made of the registers. -/
theorem Takes.of_writes (h : Takes regs (row .write addr xs) regs') : regs' = writeRow regs addr xs := by
  induction xs generalizing regs addr with
  | nil => exact h.symm
  | cons v rest ih => exact ih h

end Histories

/-! ## Block transfers -/

/-- A buffer of `len` bytes into which `bytes` have been read, the rest cleared. -/
def fill [Zero V] (buf : ℕ → V) (len : ℕ) (bytes : List V) (j : ℕ) : V :=
  if j < len then bytes.getD j 0 else buf j

/-- One more byte read into the buffer. -/
theorem update_fill [Zero V] {buf : ℕ → V} {len : ℕ} {bytes : List V} {v : V} (h : bytes.length < len) :
    Function.update (fill buf len bytes) bytes.length v = fill buf len (bytes ++ [v]) := by
  funext j
  rcases lt_trichotomy j bytes.length with hlt | rfl | hgt
  · rw [Function.update_of_ne (Nat.ne_of_lt hlt), fill, fill, if_pos (hlt.trans h), if_pos (hlt.trans h),
      List.getD_append _ _ _ _ hlt]
  · rw [Function.update_self, fill, if_pos h, List.getD_append_right _ _ _ _ le_rfl, Nat.sub_self]
    rfl
  · rw [Function.update_of_ne (Nat.ne_of_gt hgt), fill, fill, List.getD_append_right _ _ _ _ hgt.le,
      List.getD_eq_default _ _ hgt.le, List.getD_eq_default _ _ (Nat.sub_pos_of_lt hgt)]

/-- A block transfer as its caller sees it, or a reset. -/
inductive Transfer (A V : Type) where
  | read (addr : A) (buf : ℕ → V) (len : ℕ) (ok : Bool) (buf' : ℕ → V)
  | write (addr : A) (data : List V) (ok : Bool)
  | reset (regs : A → V)

variable [Add A] [One A] [DecidableEq A] [Zero V]

/-- What a transfer does when nothing comes between. One that fails stops somewhere on the way. -/
inductive Transfer.Step : Transfer A V → (A → V) → (A → V) → Prop
  | read (addr : A) (buf : ℕ → V) (len : ℕ) (ok : Bool) (k : ℕ) (regs : A → V) (hk : k ≤ len)
      (hok : ok = true → k = len) :
    Step (.read addr buf len ok (fill buf len (readRow regs addr k))) regs regs
  | write (addr : A) (data : List V) (ok : Bool) (k : ℕ) (regs : A → V)
      (hok : ok = true → k = data.length) :
    Step (.write addr data ok) regs (writeRow regs addr (data.take k))
  | reset (regs regs' : A → V) : Step (.reset regs') regs regs'

/-- A history of transfers, one after the other. -/
def History (regs : A → V) : List (Transfer A V) → (A → V) → Prop
  | [], regs' => regs = regs'
  | x :: rest, regs' => ∃ mid, x.Step regs mid ∧ History mid rest regs'

/-- One more transfer continues a history. -/
theorem History.snoc {l : List (Transfer A V)} {x : Transfer A V} (h : History regs l regs')
    (hx : x.Step regs' regs'') : History regs (l ++ [x]) regs'' := by
  induction l generalizing regs with
  | nil => exact ⟨regs'', h ▸ hx, rfl⟩
  | cons y rest ih =>
    obtain ⟨mid, hy, hrest⟩ := h
    exact ⟨mid, hy, ih hrest⟩

/-- Reads of a row, whatever they see, are a block read. -/
theorem Transfer.Step.of_reads {buf : ℕ → V} {len : ℕ} {ok : Bool} (h : Takes regs (row .read addr xs) regs')
    (hlen : xs.length ≤ len) (hok : ok = true → xs.length = len) :
    (Transfer.read addr buf len ok (fill buf len xs)).Step regs regs' := by
  obtain ⟨rfl, hxs⟩ := h.of_reads
  rw [hxs]
  exact .read addr buf len ok xs.length regs' hlen hok

/-- Writes to part of a row are a block write. -/
theorem Transfer.Step.of_writes {ok : Bool} {k : ℕ} (h : Takes regs (row .write addr (xs.take k)) regs')
    (hok : ok = true → k = xs.length) : (Transfer.write addr xs ok).Step regs regs' := by
  rw [h.of_writes]
  exact .write addr xs ok k regs hok

end RegisterFile
