import HostNotify.Rmi.Mapping

/-!
# Transfers of the transport

Every transfer reaches exactly the registers it has been asked for, in order, whatever other
threads, the bus and the device do meanwhile; and on a device whose registers change only when they
are written, the transport is a register file on which each transfer is one step.
-/

namespace HostNotify.Rmi

open Interleaving RegisterFile

variable {volatile : Bool} {s s' : Transport} {t u i : ℕ} {c : Call} {p : Pool Transport Op Op.Ans Call}
  {o : Op} {d : List (Access RmiAddr Byte)} {rmiaddr : RmiAddr} {isread : Bool}

/-! ## The accounts along the code -/

/-- Within a transfer of call `c`, after the accesses `d`. -/
structure Within (c : Call) (d : List (Access RmiAddr Byte)) (l : Account) : Prop where
  call : l.call = some c
  page : l.page = true
  mapping : l.mapping = false
  pending : l.pending = none
  done : l.done = d
  logged : l.logged = none

/-- Within a transfer that is looking for a command code. -/
structure Looking (c : Call) (d : List (Access RmiAddr Byte)) (l : Account) : Prop where
  call : l.call = some c
  page : l.page = true
  mapping : l.mapping = true
  pending : l.pending = none
  done : l.done = d
  logged : l.logged = none

/-- The entry stands for the registers of a block. -/
structure MappingTableEntry.Suits (e : MappingTableEntry) (rmiaddr : RmiAddr) (bytecount : ℕ) (isread : Bool) :
    Prop where
  rmiaddr : e.rmiaddr = rmiaddr
  readcount : isread = true → e.readcount.toNat = bytecount
  flags : isread = false → e.flags &&& rmiSmb2MapFlagsWe ≠ 0

/-- What the thread knows once it has been answered. -/
def Answered (rmiaddr : RmiAddr) (bytecount : ℕ) (isread : Bool) (l : Account) : Except Int Byte → Prop
  | .error retval => retval < 0
  | .ok code => ∃ i e, code = commandCode i ∧ l.known i = some e ∧ e.Suits rmiaddr bytecount isread

/-- An entry that serves a block is one to send it with. -/
theorem suits_of_serves {e : MappingTableEntry} {bytecount : ℕ} (h : e.serves rmiaddr bytecount isread = true) :
    e.Suits rmiaddr bytecount isread := by
  cases isread with
  | true =>
    obtain ⟨haddr, hcount⟩ : e.rmiaddr = rmiaddr ∧ e.readcount.toNat = bytecount := by
      simpa [MappingTableEntry.serves] using h
    exact ⟨haddr, fun _ => hcount, fun h => (nomatch h)⟩
  | false =>
    obtain ⟨haddr, hwe⟩ : e.rmiaddr = rmiaddr ∧ ¬ e.flags &&& rmiSmb2MapFlagsWe = 0 := by
      simpa [MappingTableEntry.serves] using h
    exact ⟨haddr, fun h => (nomatch h), fun _ => hwe⟩

/-- A cleared entry serves no block. -/
theorem not_serves_zero {bytecount : ℕ} (hpos : 0 < bytecount) :
    MappingTableEntry.zero.serves rmiaddr bytecount isread = false := by
  cases isread with
  | true =>
    have hne : ¬ 0 = bytecount := fun h => Nat.ne_of_lt hpos h
    simp [MappingTableEntry.serves, MappingTableEntry.zero, hne]
  | false => simp [MappingTableEntry.serves, MappingTableEntry.zero]

/-- The entry made for a block serves it. -/
theorem serves_made {bytecount : ℕ} (hmax : bytecount ≤ smbMaxCount) :
    (MappingTableEntry.made rmiaddr bytecount isread).serves rmiaddr bytecount isread = true := by
  cases isread with
  | true =>
    have hcount : (BitVec.ofNat 8 bytecount).toNat = bytecount := by
      rw [BitVec.toNat_ofNat]
      exact Nat.mod_eq_of_lt (lt_of_le_of_lt hmax (by decide))
    simp [MappingTableEntry.serves, MappingTableEntry.made, hcount]
  | false => simp [MappingTableEntry.serves, MappingTableEntry.made]

/-- The entry made for a block suits it. -/
theorem suits_made {bytecount : ℕ} (hmax : bytecount ≤ smbMaxCount) :
    (MappingTableEntry.made rmiaddr bytecount isread).Suits rmiaddr bytecount isread :=
  suits_of_serves (serves_made hmax)

/-- An operation that leaves every account as it is. -/
theorem obeys_idle {A : Account → Prop} {o : Op} (hallow : ∀ l : Account, l.allows o)
    (hmoves : ∀ (l l' : Account) (r : o.Ans), l.moves o r l' → l' = l) :
    Obeys ledger A (perform o) fun _ => A :=
  .perform fun l hl => ⟨hallow l, fun r l' h => by
    rw [hmoves l l' r h]
    exact hl⟩

/-- A command code is an error, or stands for registers as asked. -/
theorem rmiSmbGetCommandCode_obeys {bytecount : ℕ} (hpos : 0 < bytecount) (hmax : bytecount ≤ smbMaxCount) :
    Obeys ledger (Within c d) (rmiSmbGetCommandCode rmiaddr bytecount isread)
      fun r l => Within c d l ∧ Answered rmiaddr bytecount isread l r := by
  unfold rmiSmbGetCommandCode
  refine .bind (Q := fun _ => Looking c d) (.perform fun l h => ⟨⟨h.mapping, h.pending⟩, ?_⟩) fun _ => ?_
  · rintro _ _ rfl
    exact ⟨h.call, h.page, rfl, h.pending, h.done, h.logged⟩
  have hunlock : ∀ A : Account → Prop, (∀ l, A l → A { l with mapping := false }) →
      Obeys ledger (fun l => Looking c d l ∧ A l) (unlock .mappingtable) fun _ l => Within c d l ∧ A l := by
    refine fun A hA => .perform fun l hl => ⟨⟨hl.1.mapping, hl.1.pending⟩, ?_⟩
    rintro _ _ rfl
    exact ⟨⟨hl.1.call, hl.1.page, rfl, hl.1.pending, hl.1.done, hl.1.logged⟩, hA l hl.2⟩
  refine .bind (Q := fun table l => Looking c d l ∧ ∀ i, table i ≠ .zero → l.known i = some (table i))
    (.perform fun l h => ⟨⟨h.page, h.mapping, h.pending⟩, ?_⟩) fun table => ?_
  · rintro table _ rfl
    exact ⟨⟨h.call, h.page, h.mapping, h.pending, h.done, h.logged⟩, fun i hi => if_neg hi⟩
  cases hfind : table.find rmiaddr bytecount isread with
  | some i =>
    have hserves : (table i).serves rmiaddr bytecount isread = true := by
      have hfound := List.find?_some hfind
      exact hfound
    have hnonzero : table i ≠ .zero := by
      intro hzero
      rw [hzero, not_serves_zero hpos] at hserves
      cases hserves
    refine .bind (hunlock _ fun _ h => h) fun _ => .ret fun l hl => ⟨hl.1, i, table i, rfl, hl.2 i hnonzero, ?_⟩
    exact suits_of_serves hserves
  | none =>
    refine .bind (Q := fun _ => Looking c d) (.pre (obeys_idle (fun _ => trivial) fun _ _ _ h => h) fun _ h => h.1)
      fun i => ?_
    refine .bind (Q := fun _ => Looking c d) (obeys_idle (fun _ => trivial) fun _ _ _ h => h) fun _ => ?_
    -- the entry has been sent, and the driver has yet to note it
    refine .bind (Q := fun retval l => (l.call = some c ∧ l.page = true ∧ l.mapping = true ∧ l.pending = some i ∧
        l.done = d ∧ l.logged = none) ∧
        (0 ≤ retval → l.known i = some (MappingTableEntry.made rmiaddr bytecount isread)))
      (.perform fun l h => ⟨⟨h.page, ?_⟩, ?_⟩) fun retval => ?_
    · unfold Account.writes
      rw [slotOf_mapCode]
      exact ⟨h.mapping, h.pending⟩
    · intro retval l' hmoves
      rw [(Account.wrote_entry (slotOf_mapCode i)).mp hmoves]
      refine ⟨⟨h.call, h.page, h.mapping, rfl, h.done, h.logged⟩, fun hok => ?_⟩
      change Function.update l.known i _ i = _
      rw [Function.update_self, if_neg (Int.not_lt.mpr hok), MappingTableEntry.ofBytes_bytes]
    refine .bind (Q := fun _ l => Looking c d l ∧
        (0 ≤ retval → l.known i = some (MappingTableEntry.made rmiaddr bytecount isread)))
      (.perform fun l hl => ⟨⟨hl.1.2.1, hl.1.2.2.1, hl.1.2.2.2.1, ?_⟩, ?_⟩) fun _ => ?_
    · split
      · exact Or.inl rfl
      · next hok => exact Or.inr (hl.2 (Int.not_lt.mp hok))
    · rintro _ _ rfl
      obtain ⟨⟨hcall, hpage, hmapping, _, hdone, hlogged⟩, hknown⟩ := hl
      exact ⟨⟨hcall, hpage, hmapping, rfl, hdone, hlogged⟩, hknown⟩
    refine .bind (hunlock _ fun _ h => h) fun _ => ?_
    split
    · next herror => exact .ret fun l hl => ⟨hl.1, herror⟩
    · next hok =>
      exact .ret fun l hl => ⟨hl.1, i, _, rfl, hl.2 (Int.not_lt.mp hok), suits_made hmax⟩

/-! ## The loops -/

/-- The address after `n` registers. -/
theorem onward_eq (rmiaddr : RmiAddr) (n : ℕ) : onward rmiaddr n = rmiaddr + BitVec.ofNat 16 n := by
  induction n generalizing rmiaddr with
  | zero => exact (BitVec.add_zero rmiaddr).symm
  | succ n ih =>
    rw [onward, ih, Nat.add_comm n 1, BitVec.ofNat_add, BitVec.add_assoc]
    rfl

/-- Going on in two steps is going on by their sum. -/
theorem onward_add (rmiaddr : RmiAddr) (m n : ℕ) :
    onward rmiaddr m + BitVec.ofNat 16 n = onward rmiaddr (m + n) := by
  rw [onward_eq, onward_eq, BitVec.ofNat_add, BitVec.add_assoc]

/-- A block of registers is written, or the first of them. -/
theorem smbBlockWrite_obeys {bytecount : ℕ} {code : Byte} {buf : List Byte} :
    Obeys ledger (fun l => Within c d l ∧ Answered rmiaddr bytecount false l (.ok code)) (smbBlockWrite code buf)
      fun retval l => ∃ k, (0 ≤ retval → k = buf.length) ∧ Within c (d ++ row .write rmiaddr (buf.take k)) l := by
  refine .perform fun l hl => ?_
  obtain ⟨h, i, e, rfl, hknown, hsuits⟩ := hl
  refine ⟨⟨h.page, ?_⟩, fun retval l' hmoves => ?_⟩
  · unfold Account.writes
    rw [slotOf_commandCode]
    exact ⟨e, ⟨i, entryOf_commandCode i, hknown⟩, hsuits.flags rfl⟩
  · obtain ⟨e', k, ⟨j, hentry, hknown'⟩, hk, rfl⟩ := (Account.wrote_registers (slotOf_commandCode i)).mp hmoves
    obtain rfl : i = j := Option.some.inj ((entryOf_commandCode i).symm.trans hentry)
    obtain rfl : e = e' := Option.some.inj (hknown.symm.trans hknown')
    refine ⟨k, hk, h.call, h.page, h.mapping, h.pending, ?_, h.logged⟩
    rw [← h.done, ← hsuits.rmiaddr]

/-- A block of registers is read, or none. -/
theorem smbBlockRead_obeys {bytecount : ℕ} {code : Byte} :
    Obeys ledger (fun l => Within c d l ∧ Answered rmiaddr bytecount true l (.ok code)) (smbBlockRead code)
      fun r l => (r.1 < 0 ∧ Within c d l) ∨
        (0 ≤ r.1 ∧ r.2.length = bytecount ∧ Within c (d ++ row .read rmiaddr r.2) l) := by
  refine .perform fun l hl => ?_
  obtain ⟨h, i, e, rfl, hknown, hsuits⟩ := hl
  refine ⟨⟨h.page, e, i, entryOf_commandCode i, hknown⟩, fun r l' hmoves => ?_⟩
  rcases hmoves with ⟨herror, rfl⟩ | ⟨hok, e', ⟨j, hentry, hknown'⟩, hlen, rfl⟩
  · exact Or.inl ⟨herror, h⟩
  · obtain rfl : i = j := Option.some.inj ((entryOf_commandCode i).symm.trans hentry)
    obtain rfl : e = e' := Option.some.inj (hknown.symm.trans hknown')
    refine Or.inr ⟨hok, hlen.trans (hsuits.readcount rfl), h.call, h.page, h.mapping, h.pending, ?_, h.logged⟩
    rw [← h.done, ← hsuits.rmiaddr]

/-- Of the bytes `pre ++ rest`, a loop that has written `pre` writes a first part, or all. -/
theorem writeBlocks_obeys (left : ℕ) (pre rest : List Byte) (hleft : rest.length ≤ left) :
    Obeys ledger (Within c (row .write rmiaddr pre)) (writeBlocks left (onward rmiaddr pre.length) rest)
      fun retval l => ∃ k, (0 ≤ retval → k = (pre ++ rest).length) ∧
        Within c (row .write rmiaddr ((pre ++ rest).take k)) l := by
  induction left generalizing pre rest with
  | zero =>
    obtain rfl : rest = [] := List.eq_nil_of_length_eq_zero (Nat.le_zero.mp hleft)
    refine .ret fun l hl => ⟨_, fun _ => rfl, ?_⟩
    rw [List.take_length, List.append_nil]
    exact hl
  | succ left ih =>
    unfold writeBlocks
    split
    · next hdone =>
      subst hdone
      refine .ret fun l hl => ⟨_, fun _ => rfl, ?_⟩
      rw [List.take_length, List.append_nil]
      exact hl
    · next hmore =>
      have hpos : 0 < rest.length := List.length_pos_iff.mpr hmore
      have hblock : 0 < min rest.length smbMaxCount := Nat.lt_min.mpr ⟨hpos, by decide⟩
      refine .bind (rmiSmbGetCommandCode_obeys hblock (Nat.min_le_right _ _)) fun r => ?_
      cases r with
      | error retval =>
        refine .ret fun l hl => ⟨pre.length, fun hok => absurd hl.2 (Int.not_lt.mpr hok), ?_⟩
        rw [List.take_left]
        exact hl.1
      | ok code =>
        refine .bind smbBlockWrite_obeys fun retval => ?_
        split
        · next herror =>
          rintro l ⟨k, -, hl⟩
          refine ⟨pre.length + min k (min rest.length smbMaxCount), fun hok => absurd herror (Int.not_lt.mpr hok), ?_⟩
          rw [List.take_length_add_append, row_append, ← List.take_take]
          exact hl
        · next hok =>
          have hlen : (rest.take (min rest.length smbMaxCount)).length = min rest.length smbMaxCount :=
            List.length_take_of_le (Nat.min_le_left _ _)
          have hrest := ih (pre ++ rest.take (min rest.length smbMaxCount))
            (rest.drop (min rest.length smbMaxCount)) (by rw [List.length_drop]; omega)
          rw [List.append_assoc, List.take_append_drop, List.length_append, hlen, ← onward_add] at hrest
          refine .pre hrest ?_
          rintro l ⟨k, hk, hl⟩
          rw [hk (Int.not_lt.mp hok), List.take_length] at hl
          rw [row_append]
          exact hl

/-- A block goes where the bytes read before it end. -/
theorem store_fill {databuff : ℕ → Byte} {len : ℕ} (bytes ys : List Byte) (h : bytes.length + ys.length ≤ len) :
    store (fill databuff len bytes) bytes.length ys = fill databuff len (bytes ++ ys) := by
  induction ys generalizing bytes with
  | nil => rw [store, List.append_nil]
  | cons v rest ih =>
    rw [List.length_cons] at h
    have hrest := ih (bytes ++ [v]) (by rw [List.length_append, List.length_singleton]; omega)
    rw [List.length_append, List.length_singleton, List.append_assoc] at hrest
    rw [store, update_fill (by omega)]
    exact hrest

/-- A loop that has read `bytes` reads on, and fills the buffer with all it has read. -/
theorem readBlocks_obeys {databuff : ℕ → Byte} {len : ℕ} (left curLen : ℕ) (bytes : List Byte)
    (hleft : curLen ≤ left) (hlen : bytes.length + curLen = len) :
    Obeys ledger (Within c (row .read rmiaddr bytes))
      (readBlocks left (onward rmiaddr bytes.length) bytes.length curLen (fill databuff len bytes))
      fun r l => ∃ all, all.length ≤ len ∧ (0 ≤ r.1 → all.length = len) ∧ r.2 = fill databuff len all ∧
        Within c (row .read rmiaddr all) l := by
  induction left generalizing curLen bytes with
  | zero => exact .ret fun l hl => ⟨bytes, by omega, fun _ => by omega, rfl, hl⟩
  | succ left ih =>
    unfold readBlocks
    split
    · exact .ret fun l hl => ⟨bytes, by omega, fun _ => by omega, rfl, hl⟩
    · next hmore =>
      have hblock : 0 < min curLen smbMaxCount := Nat.lt_min.mpr ⟨Nat.pos_of_ne_zero hmore, by decide⟩
      refine .bind (rmiSmbGetCommandCode_obeys hblock (Nat.min_le_right _ _)) fun r => ?_
      cases r with
      | error retval =>
        exact .ret fun l hl => ⟨bytes, by omega, fun hok => absurd hl.2 (Int.not_lt.mpr hok), rfl, hl.1⟩
      | ok code =>
        refine .bind smbBlockRead_obeys fun r => ?_
        split
        · next herror =>
          rintro l (⟨-, hl⟩ | ⟨hok, -⟩)
          · exact ⟨bytes, by omega, fun hok => absurd herror (Int.not_lt.mpr hok), rfl, hl⟩
          · exact absurd herror (Int.not_lt.mpr hok)
        · next hok =>
          rintro l (⟨herror, -⟩ | ⟨-, hcount, hl⟩)
          · exact absurd herror hok
          have hfits : bytes.length + r.2.length ≤ len := by omega
          have hlast : curLen ≤ smbMaxCount ∨ r.2.length = smbMaxCount := by omega
          rw [store_fill bytes r.2 hfits]
          rcases hlast with hlast | hfull
          · -- that was the last block, whatever the addresses have been moved on by
            rw [Nat.sub_eq_zero_of_le hlast]
            have hend : ∀ addr pos buf, readBlocks left addr pos 0 buf = pure (0, buf) := by
              intro addr pos buf
              cases left with
              | zero => rfl
              | succ left => rfl
            rw [hend]
            have hall : (bytes ++ r.2).length = len := by rw [List.length_append]; omega
            refine ⟨bytes ++ r.2, Nat.le_of_eq hall, fun _ => hall, rfl, ?_⟩
            rw [row_append]
            exact hl
          · have hrest := ih (curLen - smbMaxCount) (bytes ++ r.2) (by omega)
              (by rw [List.length_append]; omega)
            rw [List.length_append, hfull, ← onward_add] at hrest
            refine hrest l ?_
            rw [row_append]
            exact hl

/-! ## The calls -/

/-- What a call leaves in the log. -/
inductive Call.Logged : Call → Option (Transfer RmiAddr Byte) → Prop
  | readBlock (rmiaddr : RmiAddr) (databuff : ℕ → Byte) (len : ℕ) (ok : Bool) (buf : ℕ → Byte) :
    Logged (.readBlock rmiaddr databuff len) (some (.read rmiaddr databuff len ok buf))
  | writeBlock (rmiaddr : RmiAddr) (databuff : List Byte) (ok : Bool) :
    Logged (.writeBlock rmiaddr databuff) (some (.write rmiaddr databuff ok))
  | reset : Logged .reset none
  | resume : Logged .resume none

/-- A call that has returned has entered its transfer into the log, and holds nothing. -/
structure Rests (l : Account) : Prop where
  logged : ∀ c, l.call = some c → c.Logged l.logged
  page : l.page = false
  mapping : l.mapping = false

/-- A call takes the page mutex first, and has accessed nothing then. -/
theorem lock_page_obeys : Obeys ledger (fun l => l = .fresh (some c)) (lock .page) fun _ => Within c [] := by
  refine .perform ?_
  rintro _ rfl
  refine ⟨⟨rfl, rfl⟩, ?_⟩
  rintro _ _ rfl
  exact ⟨rfl, rfl, rfl, rfl, rfl, rfl⟩

/-- The transfer is entered into the log, and the mutex given up. -/
theorem leaves_obeys {A : Type} {x : Transfer RmiAddr Byte} {a : A} (hlogged : c.Logged (some x)) :
    Obeys ledger (fun l => Within c d l ∧ Performed c d x)
      (do perform (.leaves x); unlock .page; pure a : Driver A) fun _ => Rests := by
  refine .bind (Q := fun _ l => l.call = some c ∧ l.page = true ∧ l.mapping = false ∧ l.done = [] ∧ l.logged = some x)
    (.perform fun l hl => ?_) fun _ => .bind (Q := fun _ => Rests) (.perform fun l hl => ?_) fun _ => .ret fun _ h => h
  · obtain ⟨h, hperformed⟩ := hl
    refine ⟨⟨h.page, h.logged, c, h.call, h.done ▸ hperformed⟩, ?_⟩
    rintro _ _ rfl
    exact ⟨h.call, h.page, h.mapping, rfl, rfl⟩
  · obtain ⟨hcall, hpage, hmapping, hdone, hentered⟩ := hl
    refine ⟨⟨hpage, hdone⟩, ?_⟩
    rintro _ _ rfl
    refine ⟨fun c' hc' => ?_, rfl, hmapping⟩
    obtain rfl : c = c' := Option.some.inj (hcall.symm.trans hc')
    change c.Logged l.logged
    rw [hentered]
    exact hlogged

/-- A block write keeps to the rules. -/
theorem rmiSmbWriteBlock_obeys (rmiaddr : RmiAddr) (databuff : List Byte) :
    Obeys ledger (fun l => l = .fresh (some (.writeBlock rmiaddr databuff))) (rmiSmbWriteBlock rmiaddr databuff)
      fun _ => Rests := by
  refine .bind lock_page_obeys fun _ => ?_
  refine .bind (writeBlocks_obeys databuff.length [] databuff le_rfl) fun retval => ?_
  rintro l ⟨k, hk, hl⟩
  exact leaves_obeys (.writeBlock rmiaddr databuff _) l ⟨hl, .write rmiaddr databuff _ k fun h => hk (of_decide_eq_true h)⟩

/-- A block read keeps to the rules. -/
theorem rmiSmbReadBlock_obeys (rmiaddr : RmiAddr) (databuff : ℕ → Byte) (len : ℕ) :
    Obeys ledger (fun l => l = .fresh (some (.readBlock rmiaddr databuff len)))
      (rmiSmbReadBlock rmiaddr databuff len) fun _ => Rests := by
  have hcleared : (fun k => if k < len then 0 else databuff k) = fill databuff len [] := by
    funext k
    rfl
  unfold rmiSmbReadBlock
  rw [hcleared]
  refine .bind lock_page_obeys fun _ => ?_
  refine .bind (readBlocks_obeys len len [] le_rfl (Nat.zero_add len)) fun r => ?_
  obtain ⟨retval, buf⟩ := r
  rintro l ⟨bytes, hlen, hok, rfl, hl⟩
  exact leaves_obeys (.readBlock rmiaddr databuff len _ _) l
    ⟨hl, .read rmiaddr databuff len _ bytes hlen fun h => hok (of_decide_eq_true h)⟩

/-- Waiting for the device and asking for its version. -/
theorem enableSmbusMode_allOps : rmiSmbEnableSmbusMode.AllOps fun o =>
    o = .resetDelayMs ∨ (∃ code, o = .readByteData code) ∨ ∃ ms, o = .msleep ms := by
  have hversion : rmiSmbGetVersion.AllOps fun o =>
      o = .resetDelayMs ∨ (∃ code, o = .readByteData code) ∨ ∃ ms, o = .msleep ms := by
    refine ⟨Or.inr (Or.inl ⟨_, rfl⟩), fun retval => ?_⟩
    change Prog.AllOps _ (if retval < 0 then pure retval else pure (retval + 1))
    split <;> trivial
  have hrest := hversion.bind (f := fun version : Int =>
    if version < 0 then pure version else if version ≠ 2 ∧ version ≠ 3 then pure (-enodev) else pure 0)
    fun version => by
      split
      · trivial
      · split <;> trivial
  refine ⟨Or.inl rfl, fun ms => ?_⟩
  change Prog.AllOps _ (if ms ≠ 0 then _ else _)
  split
  · exact ⟨Or.inr (Or.inr ⟨ms, rfl⟩), fun _ => hrest⟩
  · exact hrest

/-- A reset keeps to the rules. -/
theorem rmiSmbReset_obeys (hlogged : c.Logged none) :
    Obeys ledger (fun l => l = .fresh (some c)) rmiSmbReset fun _ => Rests := by
  have hrests : ∀ l : Account, l.call = some c ∧ l.logged = none ∧ l.page = false ∧ l.mapping = false → Rests l := by
    rintro l ⟨hcall, hnone, hpage, hmapping⟩
    refine ⟨fun c' hc' => ?_, hpage, hmapping⟩
    obtain rfl : c = c' := Option.some.inj (hcall.symm.trans hc')
    rw [hnone]
    exact hlogged
  refine .bind (Q := fun _ l => l.call = some c ∧ l.logged = none ∧ l.page = false ∧ l.mapping = false) ?_ fun _ =>
    .post (.of_allOps enableSmbusMode_allOps fun o l ho hl => ?_) fun _ => hrests
  · refine .bind (Q := fun _ l => (l.call = some c ∧ l.logged = none ∧ l.page = false) ∧ l.mapping = true ∧
      l.pending = none) (.perform ?_) fun _ => .bind (Q := fun _ l => (l.call = some c ∧ l.logged = none ∧
        l.page = false) ∧ l.mapping = true ∧ l.pending = none) (.perform ?_) fun _ => .perform ?_
    · rintro _ rfl
      refine ⟨⟨rfl, rfl⟩, ?_⟩
      rintro _ _ rfl
      exact ⟨⟨rfl, rfl, rfl⟩, rfl, rfl⟩
    · rintro l ⟨hcall, hmapping, hpending⟩
      refine ⟨⟨hmapping, hpending⟩, ?_⟩
      rintro _ _ rfl
      exact ⟨hcall, hmapping, hpending⟩
    · rintro l ⟨⟨hcall, hnone, hpage⟩, hmapping, hpending⟩
      refine ⟨⟨hmapping, hpending⟩, ?_⟩
      rintro _ _ rfl
      exact ⟨hcall, hnone, hpage, rfl⟩
  · rcases ho with rfl | ⟨code, rfl⟩ | ⟨ms, rfl⟩ <;> exact ⟨trivial, fun _ l' h => h ▸ hl⟩

/-- Every call keeps to the rules. -/
theorem body_obeys (c : Call) : Obeys ledger (fun l => l = .fresh (some c)) c.body fun _ => Rests := by
  cases c with
  | readBlock rmiaddr databuff len => exact .bind (rmiSmbReadBlock_obeys rmiaddr databuff len) fun _ => .ret fun _ h => h
  | writeBlock rmiaddr databuff => exact .bind (rmiSmbWriteBlock_obeys rmiaddr databuff) fun _ => .ret fun _ h => h
  | reset => exact .bind (rmiSmbReset_obeys .reset) fun _ => .ret fun _ h => h
  | resume =>
    refine .bind (rmiSmbReset_obeys .resume) fun _ => .perform fun l hl => ⟨trivial, fun _ l' h => ?_⟩
    rw [h]
    exact hl

/-! ## Every run -/

/-- What the device does by itself leaves the invariant and every account as they are. -/
theorem react_keeps {e : Event} (hinv : Inv volatile s) (hreact : react volatile e s = some s') :
    Inv volatile s' ∧ ∀ u, Spares u s s' := by
  cases e with
  | registers regs =>
    obtain ⟨hvolatile, hs'⟩ := Option.ite_none_right_eq_some.mp hreact
    cases hs'
    refine ⟨hinv.of_eq rfl rfl rfl rfl rfl rfl rfl rfl fun h => ?_, fun u => .of_eq rfl rfl rfl rfl rfl rfl rfl⟩
    rw [hvolatile] at h
    cases h
  | bus fault =>
    cases hreact
    exact ⟨hinv.of_eq rfl rfl rfl rfl rfl rfl rfl rfl fun _ => rfl, fun u => .of_eq rfl rfl rfl rfl rfl rfl rfl⟩
  | version answer =>
    cases hreact
    exact ⟨hinv.of_eq rfl rfl rfl rfl rfl rfl rfl rfl fun _ => rfl, fun u => .of_eq rfl rfl rfl rfl rfl rfl rfl⟩
  | ps2Reset regs =>
    obtain ⟨hfree, hs'⟩ := Option.ite_none_right_eq_some.mp hreact
    cases hs'
    refine ⟨⟨fun _ h => (nomatch h), fun h => absurd hfree h, hinv.trace, fun hv => ?_⟩, fun u => ?_⟩
    · obtain ⟨before, hhistory, htakes⟩ := hinv.history hv
      rw [hinv.trace hfree] at htakes
      obtain rfl : before = s.regs := htakes
      refine ⟨regs, ?_, ?_⟩
      · rw [List.map_append, List.map_cons, List.map_nil]
        exact hhistory.snoc (.reset s.regs regs)
      · change Takes regs s.trace regs
        rw [hinv.trace hfree]
        rfl
    · have hno : s.pageMutex ≠ some u := by
        rw [hfree]
        nofun
      exact ⟨Iff.rfl, Iff.rfl, fun h => absurd h hno, fun _ => rfl, fun _ h => (nomatch h),
        logOf_append_of_ne rfl fun h => (nomatch h)⟩

/-- The accounts of the threads, tied to the transport. -/
def custody (volatile : Bool) : Custody (machine volatile true) ledger where
  known _ := True
  inv := Inv volatile
  tie := Tie
  idle := .fresh none
  starts c l := l = .fresh (some c)
  during c l := l.call = some c
  rest := Rests
  starts_during := by
    rintro c _ rfl
    rfl
  moves_during c l o r l' hl hmoves := by
    cases o with
    | lock m => cases m <;> (rw [hmoves]; exact hl)
    | unlock m => cases m <;> (rw [hmoves]; exact hl)
    | writeBlockData code buf =>
      cases hslot : slotOf code with
      | some i =>
        rw [(Account.wrote_entry hslot).mp hmoves]
        exact hl
      | none =>
        obtain ⟨e, k, _, _, rfl⟩ := (Account.wrote_registers hslot).mp hmoves
        exact hl
    | readBlockData code =>
      rcases hmoves with ⟨_, rfl⟩ | ⟨_, e, _, _, rfl⟩ <;> exact hl
    | _ =>
      rw [hmoves]
      exact hl
  event_keeps e s s' _ hinv hreact :=
    ⟨(react_keeps hinv hreact).1, fun u _ ht => ht.spared ((react_keeps hinv hreact).2 u)⟩
  enter_keeps c t s s' _ hinv ht henter := by
    cases henter
    exact ⟨hinv, ⟨_, rfl, ht.page, ht.mapping, ht.coherent, ht.known, ht.done, ht.logged⟩, fun _ _ _ h => h⟩
  step_keeps c t l o s r s' _ hinv ht _ hallow hadmits hexec := by
    have hkept := exec_kept hinv ht hallow hadmits hexec
    exact ⟨hkept.inv, hkept.account, fun u _ hu h => h.spared (hkept.others u hu)⟩

/-- The invariant holds at the beginning, and nobody has accessed anything. -/
theorem Fresh.inv (h : Fresh s) : Inv volatile s ∧ ∀ t, Tie t (.fresh none) s := by
  refine ⟨⟨fun _ _ i => Or.inl ?_, fun hp => absurd h.pageMutex hp, fun _ => h.trace, fun _ => ⟨s.regs, ?_, ?_⟩⟩,
    fun t => ⟨?_, ?_, fun hm => (nomatch hm), fun hp => (nomatch hp), fun hp => (nomatch hp), ?_⟩⟩
  · rw [h.mappingTable]
  · rw [h.origin, h.log]
    rfl
  · rw [h.trace]
    rfl
  · rw [h.pageMutex]
    exact ⟨fun hp => (nomatch hp), fun hp => (nomatch hp)⟩
  · rw [h.mappingtableMutex]
    exact ⟨fun hm => (nomatch hm), fun hm => (nomatch hm)⟩
  · rw [Transport.logOf, h.log]
    rfl

/-- Every thread of a reachable state has a true account. -/
theorem covers (h : p.Reachable (machine volatile true) Fresh) : (custody volatile).Covers p := by
  refine (custody volatile).covers_reachable (fun _ _ => trivial) (fun _ hs => hs.inv) ?_ h
  rintro c _ rfl
  exact body_obeys c _ rfl

/-- At the end of a transfer exactly its registers have been accessed, in order, and its buffer holds
what has been read. -/
theorem transfer_performed {x : Transfer RmiAddr Byte} (h : p.Reachable (machine volatile true) Fresh)
    (hnext : p.next i = some (c, .leaves x)) : Performed c p.shared.trace x := by
  obtain ⟨l, hcall, ht, hpage, -, c', hcall', hperformed⟩ := (covers h).next_allowed hnext
  obtain rfl : c' = c := Option.some.inj (hcall'.symm.trans hcall)
  rw [ht.done hpage]
  exact hperformed

/-- A device with `0x5a` in every register, and anything in its table. -/
def Transport.allocated : Transport where
  regs _ := 0x5a
  deviceTable _ := { rmiaddr := 0x1234, readcount := 7, flags := rmiSmb2MapFlagsWe }
  mappingTable _ := .zero
  tableIndex := ⟨0, by decide⟩
  noted := []
  pageMutex := none
  mappingtableMutex := none
  resetDelayMs := 0
  fault := none
  version := 1
  origin _ := 0x5a
  log := []
  trace := []
  stale := false

/-- A transport that has just been allocated is fresh. -/
theorem allocated_fresh : Fresh Transport.allocated := ⟨rfl, rfl, rfl, rfl, rfl, rfl, rfl, rfl⟩

/-- The next `n` operations of thread `i`. -/
def stepping (i n : ℕ) : List (Action Call Event) := List.replicate n (.step i)

/-- The driver forgets the table while a block is being written, and another thread reads the block. -/
def forgotten : List (Action Call Event) :=
  .call (.writeBlock 0x20 [1, 2, 3]) :: stepping 0 8 ++ .call .reset :: stepping 1 5 ++ stepping 0 3 ++
    .call (.readBlock 0x1f (fun _ => 0xff) 34) :: stepping 2 17

/-- A schedule that runs through to a state yields that state as a reachable one. -/
theorem exists_run (volatile prompt : Bool) (schedule : List (Action Call Event))
    (φ : Pool Transport Op Op.Ans Call → Bool)
    (h : (Pool.run (machine volatile prompt) schedule ⟨.allocated, []⟩).any φ = true) :
    ∃ p, p.Reachable (machine volatile prompt) Fresh ∧ φ p = true := by
  rw [Option.any_eq_true] at h
  obtain ⟨p, hp, hφ⟩ := h
  exact ⟨p, ⟨.allocated, schedule, allocated_fresh, hp⟩, hφ⟩

/-- Thread 2 is about to leave. -/
def leaving (p : Pool Transport Op Op.Ans Call) : Bool :=
  match p.next 2 with
  | some (_, .leaves _) => true
  | _ => false

/-- A transfer after the device has been reset: the entries are made anew. -/
theorem transfer_performed_forgotten : ∃ (p : Pool Transport Op Op.Ans Call) (c : Call) (x : Transfer RmiAddr Byte),
    p.next 2 = some (c, .leaves x) ∧ Performed c p.shared.trace x := by
  obtain ⟨p, hreach, hleaving⟩ := exists_run true true forgotten leaving (by decide +kernel)
  unfold leaving at hleaving
  split at hleaving
  · next c x hnext => exact ⟨p, c, x, hnext, transfer_performed hreach hnext⟩
  · cases hleaving

/-- On a device whose registers do not change of their own accord the transport is a register file: the
transfers in the log, each all at once, have led to the registers as they are, but for those of a transfer
in progress; and every call that has returned is in the log, once. -/
theorem transport_history (h : p.Reachable (machine false true) Fresh) :
    (∃ regs, History p.shared.origin (p.shared.log.map Prod.snd) regs ∧
      Takes regs p.shared.trace p.shared.regs ∧ (p.shared.pageMutex = none → regs = p.shared.regs)) ∧
    ∀ i c, p.returned i = some c → ∃ x, c.Logged x ∧ p.shared.logOf i = x.toList := by
  have hcovers := covers h
  refine ⟨?_, fun i c hret => ?_⟩
  · obtain ⟨regs, hhistory, htakes⟩ := hcovers.inv.history rfl
    refine ⟨regs, hhistory, htakes, fun hfree => ?_⟩
    rw [hcovers.inv.trace hfree] at htakes
    exact htakes
  · obtain ⟨l, hcall, ht, hrests⟩ := hcovers.returned hret
    exact ⟨l.logged, hrests.logged c hcall, ht.logged⟩

/-- In the same run, a call that has returned is in the log. -/
theorem transport_history_forgotten : ∃ (p : Pool Transport Op Op.Ans Call) (c : Call), p.returned 0 = some c ∧
    ∃ x, c.Logged x ∧ p.shared.logOf 0 = x.toList := by
  obtain ⟨p, hreach, hreturned⟩ := exists_run false true forgotten (fun p => (p.returned 0).isSome)
    (by decide +kernel)
  obtain ⟨c, hc⟩ := Option.isSome_iff_exists.mp hreturned
  exact ⟨p, c, hc, (transport_history hreach).2 0 c hc⟩

/-- The operation does not have to wait. -/
theorem exec_ready {o : Op} (hlock : ∀ m, o = .lock m → s.holder m = none) : ∃ r s', exec t o s = some (r, s') := by
  cases o with
  | lock m => exact ⟨_, _, if_pos (hlock m rfl)⟩
  | readBlockData code =>
    cases hfault : s.fault with
    | some f => exact ⟨_, _, by simp only [exec, hfault]; rfl⟩
    | none =>
      cases hmapped : s.mapped code with
      | some x => exact ⟨_, _, by simp only [exec, hfault, hmapped]; rfl⟩
      | none => exact ⟨_, _, by simp only [exec, hfault, hmapped]; rfl⟩
  | _ => exact ⟨_, _, rfl⟩

/-- A thread whose next operation has not to wait can go on. -/
theorem act_ready (hnext : p.next i = some (c, o)) (hlock : ∀ m, o = .lock m → p.shared.holder m = none)
    (hadmits : admits o p.shared = true) : ∃ p', p.act (machine volatile true) (.step i) = some p' := by
  obtain ⟨q, hq⟩ := Pool.next_some hnext
  obtain ⟨r, s', hexec⟩ := exec_ready (s := p.shared) (t := i) hlock
  have hexec' : (machine volatile true).exec i o p.shared = some (r, s') := hexec
  have hadmits' : (machine volatile true).admits c o p.shared = true := hadmits
  simp only [Pool.act, hq, hadmits', if_true, hexec', Option.map_some]
  exact ⟨_, rfl⟩

/-- The holder of a mutex is a thread with operations left. -/
theorem holder_next (h : p.Reachable (machine volatile true) Fresh) {m : Lock} (hheld : p.shared.holder m = some i) :
    ∃ c o, p.next i = some (c, o) := by
  have hcovers := covers h
  have hno : ∀ l, Tie i l p.shared → l.page = false → l.mapping = false → False := by
    intro l ht hpage hmapping
    cases m with
    | page => exact Bool.noConfusion (hpage.symm.trans (ht.page.mpr hheld))
    | mappingtable => exact Bool.noConfusion (hmapping.symm.trans (ht.mapping.mpr hheld))
  rcases lt_or_ge i p.threads.length with hlt | hge
  · obtain ⟨⟨c, q⟩, hi⟩ : ∃ d, p.threads[i]? = some d := ⟨_, List.getElem?_eq_getElem hlt⟩
    obtain ⟨l, _, ht, hfollows⟩ := hcovers.thread i c q hi
    cases q with
    | ret a => exact (hno l ht hfollows.page hfollows.mapping).elim
    | op o next => exact ⟨c, o, by unfold Pool.next; rw [hi]⟩
  · exact (hno _ (hcovers.absent i hge) rfl rfl).elim

/-- The transport is never stuck: while a call is unfinished and the driver's table is not out of date,
some thread can go on. -/
theorem transport_progress (h : p.Reachable (machine volatile true) Fresh) (hstale : p.shared.stale = false)
    (hnext : p.next i = some (c, o)) : ∃ j p', p.act (machine volatile true) (.step j) = some p' := by
  have hcovers := covers h
  have hadmits : ∀ o, admits o p.shared = true := by
    intro o
    unfold admits
    split
    · rw [hstale]
      rfl
    · rfl
  -- the holder of the inner mutex asks for no other, and that of the outer one only for the inner
  have hinner : ∀ j, p.shared.mappingtableMutex = some j → ∃ j p', p.act (machine volatile true) (.step j) = some p' := by
    intro j hheld
    obtain ⟨c', o', hj⟩ := holder_next (m := .mappingtable) h hheld
    obtain ⟨l, _, ht, hallow⟩ := hcovers.next_allowed hj
    have hmapping := ht.mapping.mpr hheld
    refine ⟨j, act_ready hj (fun m hm => ?_) (hadmits o')⟩
    subst hm
    cases m with
    | page => exact Bool.noConfusion (hallow.2.symm.trans hmapping)
    | mappingtable => exact Bool.noConfusion (hallow.1.symm.trans hmapping)
  cases hmappingtable : p.shared.mappingtableMutex with
  | some j => exact hinner j hmappingtable
  | none =>
    cases hpage : p.shared.pageMutex with
    | some j =>
      obtain ⟨c', o', hj⟩ := holder_next (m := .page) h hpage
      obtain ⟨l, _, ht, hallow⟩ := hcovers.next_allowed hj
      refine ⟨j, act_ready hj (fun m hm => ?_) (hadmits o')⟩
      subst hm
      cases m with
      | page => exact Bool.noConfusion (hallow.1.symm.trans (ht.page.mpr hpage))
      | mappingtable => exact hmappingtable
    | none =>
      refine ⟨i, act_ready hnext (fun m _ => ?_) (hadmits o)⟩
      cases m with
      | page => exact hpage
      | mappingtable => exact hmappingtable

/-- A read begins while a write is under way. -/
def queued : List (Action Call Event) :=
  .call (.writeBlock 0x20 [1, 2, 3]) :: stepping 0 3 ++ [.call (.readBlock 0x1f (fun _ => 0xff) 34)]

/-- Thread 1 waits for the page mutex, and the one that has it can go on. -/
theorem transport_progress_queued : ∃ p : Pool Transport Op Op.Ans Call, (p.next 1).isSome = true ∧
    (p.act (machine false true) (.step 1)).isNone = true ∧
    ∃ j p', p.act (machine false true) (.step j) = some p' := by
  obtain ⟨p, hreach, hstate⟩ := exists_run false true queued
    (fun p => !p.shared.stale && (p.next 1).isSome && (p.act (machine false true) (.step 1)).isNone)
    (by decide +kernel)
  rw [Bool.and_eq_true, Bool.and_eq_true, Bool.not_eq_true'] at hstate
  obtain ⟨⟨hsettled, hwaiting⟩, hblocked⟩ := hstate
  obtain ⟨⟨c, o⟩, hnext⟩ := Option.isSome_iff_exists.mp hwaiting
  exact ⟨p, hwaiting, hblocked, transport_progress hreach hsettled hnext⟩

end HostNotify.Rmi
