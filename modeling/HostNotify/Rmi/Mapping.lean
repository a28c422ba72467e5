import HostNotify.Interleaving.Custody
import HostNotify.Rmi.Transport

/-!
# What a transfer may rely on

Each thread keeps an account: the mutexes it holds, what it knows of the device's table, and the
accesses its transfer has made. The transport's invariant is that, while the mapping mutex is free
and the device has not been reset behind the driver's back, the device has every entry the driver
remembers. Under it the accounts are true in every run.
-/

namespace HostNotify.Rmi

open Interleaving RegisterFile

variable {volatile : Bool} {s s' : Transport} {t u : ℕ} {c : Call}

/-! ## Accounts -/

/-- The account of a thread. -/
structure Account where
  call : Option Call
  page : Bool
  mapping : Bool
  /-- The entry being replaced. -/
  pending : Option (Fin rmiSmb2MapSize)
  /-- What the device has in its table, as far as the thread knows. -/
  known : Fin rmiSmb2MapSize → Option MappingTableEntry
  /-- The accesses of the transfer. -/
  done : List (Access RmiAddr Byte)
  /-- What the thread has entered into the log. -/
  logged : Option (Transfer RmiAddr Byte)

/-- Before anything has been done. -/
def Account.fresh (call : Option Call) : Account :=
  { call := call, page := false, mapping := false, pending := none, known := fun _ => none, done := []
    logged := none }

/-- The accesses carry out the transfer the call asks for: all of it, or after an error a first part;
the rest of the buffer is zero, and nothing beyond its end is touched. -/
inductive Performed : Call → List (Access RmiAddr Byte) → Transfer RmiAddr Byte → Prop
  | read (rmiaddr : RmiAddr) (databuff : ℕ → Byte) (len : ℕ) (ok : Bool) (bytes : List Byte)
      (hlen : bytes.length ≤ len) (hok : ok = true → bytes.length = len) :
    Performed (.readBlock rmiaddr databuff len) (row .read rmiaddr bytes)
      (.read rmiaddr databuff len ok (fill databuff len bytes))
  | write (rmiaddr : RmiAddr) (databuff : List Byte) (ok : Bool) (k : ℕ)
      (hok : ok = true → k = databuff.length) :
    Performed (.writeBlock rmiaddr databuff) (row .write rmiaddr (databuff.take k))
      (.write rmiaddr databuff ok)

/-- A command code stands for registers the thread knows of. -/
def Account.Maps (l : Account) (code : Byte) (e : MappingTableEntry) : Prop :=
  ∃ i, entryOf code = some i ∧ l.known i = some e

/-- A block may be written to the command code: an entry of the table, while no other is being
replaced, or registers that may be written. -/
def Account.writes (l : Account) (code : Byte) : Prop :=
  match slotOf code with
  | some _ => l.mapping = true ∧ l.pending = none
  | none => ∃ e, l.Maps code e ∧ e.flags &&& rmiSmb2MapFlagsWe ≠ 0

/-- What the account becomes when a block has been written with result `r`. -/
def Account.wrote (l : Account) (code : Byte) (buf : List Byte) (r : Int) (l' : Account) : Prop :=
  match slotOf code with
  | some i =>
    l' = { l with
      pending := some i
      known := Function.update l.known i (if r < 0 then none else MappingTableEntry.ofBytes buf) }
  | none => ∃ e k, l.Maps code e ∧ (0 ≤ r → k = buf.length) ∧
      l' = { l with done := l.done ++ row .write e.rmiaddr (buf.take k) }

/-- The operations an account permits. -/
def Account.allows (l : Account) : Op → Prop
  | .lock .page => l.page = false ∧ l.mapping = false
  | .unlock .page => l.page = true ∧ l.done = []
  | .lock .mappingtable => l.mapping = false ∧ l.pending = none
  | .unlock .mappingtable => l.mapping = true ∧ l.pending = none
  | .mappingTable => l.page = true ∧ l.mapping = true ∧ l.pending = none
  | .setMappingTable i e =>
    l.page = true ∧ l.mapping = true ∧ l.pending = some i ∧ (e = .zero ∨ l.known i = some e)
  | .clearMappingTable => l.mapping = true ∧ l.pending = none
  | .writeBlockData code _ => l.page = true ∧ l.writes code
  | .readBlockData code => l.page = true ∧ ∃ e, l.Maps code e
  | .leaves x => l.page = true ∧ l.logged = none ∧ ∃ c, l.call = some c ∧ Performed c l.done x
  | _ => True

/-- What an operation makes of an account. -/
def Account.moves (l : Account) : (o : Op) → o.Ans → Account → Prop
  | .lock .page, _, l' => l' = { l with page := true, known := fun _ => none, done := [] }
  | .unlock .page, _, l' => l' = { l with page := false }
  | .lock .mappingtable, _, l' => l' = { l with mapping := true }
  | .unlock .mappingtable, _, l' => l' = { l with mapping := false }
  | .mappingTable, table, l' =>
    l' = { l with known := fun i => if table i = .zero then none else some (table i) }
  | .setMappingTable _ _, _, l' => l' = { l with pending := none }
  | .writeBlockData code buf, r, l' => l.wrote code buf r l'
  | .readBlockData code, r, l' =>
    (r.1 < 0 ∧ l' = l) ∨ (0 ≤ r.1 ∧ ∃ e, l.Maps code e ∧ r.2.length = e.readcount.toNat ∧
      l' = { l with done := l.done ++ row .read e.rmiaddr r.2 })
  | .leaves x, _, l' => l' = { l with done := [], logged := some x }
  | _, _, l' => l' = l

/-- What a block write makes of an account. -/
theorem Account.moves_writeBlockData {l l' : Account} {code : Byte} {buf : List Byte} {r : Int} :
    l.moves (.writeBlockData code buf) r l' ↔ l.wrote code buf r l' := Iff.rfl

/-- A block that goes to a slot of the device's table is an entry on its way. -/
theorem Account.wrote_entry {l : Account} {code : Byte} {buf : List Byte} {r : Int} {i : Fin rmiSmb2MapSize}
    (hslot : slotOf code = some i) {l' : Account} : l.wrote code buf r l' ↔ l' = { l with
      pending := some i
      known := Function.update l.known i (if r < 0 then none else MappingTableEntry.ofBytes buf) } := by
  unfold Account.wrote
  rw [hslot]

/-- A block that goes to a command code is registers written. -/
theorem Account.wrote_registers {l : Account} {code : Byte} {buf : List Byte} {r : Int}
    (hslot : slotOf code = none) {l' : Account} : l.wrote code buf r l' ↔
      ∃ e k, l.Maps code e ∧ (0 ≤ r → k = buf.length) ∧
        l' = { l with done := l.done ++ row .write e.rmiaddr (buf.take k) } := by
  unfold Account.wrote
  rw [hslot]

/-- The rules of the accounts. -/
def ledger : Ledger Op Op.Ans Account where
  allows := Account.allows
  moves := Account.moves

/-! ## The accounts are true -/

/-- The device has what the driver remembers of an entry. -/
def Transport.Coherent (s : Transport) (i : Fin rmiSmb2MapSize) : Prop :=
  s.mappingTable i = .zero ∨ s.deviceTable i = s.mappingTable i

/-- What a thread has entered into the log. -/
def Transport.logOf (s : Transport) (t : ℕ) : List (Transfer RmiAddr Byte) :=
  (s.log.filter fun x => x.1 = some t).map Prod.snd

/-- The account `l` of thread `t` is true. -/
structure Tie (t : ℕ) (l : Account) (s : Transport) : Prop where
  page : l.page = true ↔ s.pageMutex = some t
  mapping : l.mapping = true ↔ s.mappingtableMutex = some t
  coherent : l.mapping = true → s.stale = false → ∀ i, l.pending ≠ some i → s.Coherent i
  known : l.page = true → ∀ i e, l.known i = some e → s.deviceTable i = e
  done : l.page = true → s.trace = l.done
  logged : s.logOf t = l.logged.toList

/-- The invariant of the transport. -/
structure Inv (volatile : Bool) (s : Transport) : Prop where
  coherent : s.mappingtableMutex = none → s.stale = false → ∀ i, s.Coherent i
  page : s.pageMutex ≠ none → s.stale = false
  trace : s.pageMutex = none → s.trace = []
  history : volatile = false →
    ∃ regs, History s.origin (s.log.map Prod.snd) regs ∧ Takes regs s.trace s.regs

/-- What a step leaves alone as far as thread `u` is concerned. -/
structure Spares (u : ℕ) (s s' : Transport) : Prop where
  page : s'.pageMutex = some u ↔ s.pageMutex = some u
  mapping : s'.mappingtableMutex = some u ↔ s.mappingtableMutex = some u
  deviceTable : s.pageMutex = some u → s'.deviceTable = s.deviceTable
  trace : s.pageMutex = some u → s'.trace = s.trace
  coherent : s.mappingtableMutex = some u → s'.stale = false →
    s.stale = false ∧ ∀ i, s.Coherent i → s'.Coherent i
  log : s'.logOf u = s.logOf u

/-- An account stays true when another thread takes a step that spares it. -/
theorem Tie.spared {l : Account} (h : Tie u l s) (hs : Spares u s s') : Tie u l s' where
  page := h.page.trans hs.page.symm
  mapping := h.mapping.trans hs.mapping.symm
  coherent hm hstale i hi := by
    obtain ⟨hstale', hkeeps⟩ := hs.coherent (h.mapping.mp hm) hstale
    exact hkeeps i (h.coherent hm hstale' i hi)
  known hp := by
    rw [hs.deviceTable (h.page.mp hp)]
    exact h.known hp
  done hp := (hs.trace (h.page.mp hp)).trans (h.done hp)
  logged := hs.log.trans h.logged

/-- A step that changes nothing the accounts speak of. -/
theorem Spares.of_eq (hpage : s'.pageMutex = s.pageMutex) (hmapping : s'.mappingtableMutex = s.mappingtableMutex)
    (hdevice : s'.deviceTable = s.deviceTable) (htable : s'.mappingTable = s.mappingTable)
    (htrace : s'.trace = s.trace) (hstale : s'.stale = s.stale) (hlog : s'.log = s.log) : Spares u s s' where
  page := by rw [hpage]
  mapping := by rw [hmapping]
  deviceTable _ := hdevice
  trace _ := htrace
  coherent _ h := by
    refine ⟨hstale.symm.trans h, fun i hi => ?_⟩
    rw [Transport.Coherent, hdevice, htable]
    exact hi
  log := by rw [Transport.logOf, hlog, Transport.logOf]

/-- Such a step keeps the invariant. -/
theorem Inv.of_eq (h : Inv volatile s) (hpage : s'.pageMutex = s.pageMutex)
    (hmapping : s'.mappingtableMutex = s.mappingtableMutex) (hdevice : s'.deviceTable = s.deviceTable)
    (htable : s'.mappingTable = s.mappingTable) (htrace : s'.trace = s.trace) (hstale : s'.stale = s.stale)
    (hlog : s'.log = s.log) (horigin : s'.origin = s.origin) (hregs : volatile = false → s'.regs = s.regs) :
    Inv volatile s' where
  coherent hm hs i := by
    rw [Transport.Coherent, hdevice, htable]
    exact h.coherent (hmapping ▸ hm) (hstale ▸ hs) i
  page hp := hstale.trans (h.page (hpage ▸ hp))
  trace hp := htrace.trans (h.trace (hpage ▸ hp))
  history hv := by
    rw [horigin, hlog, htrace, hregs hv]
    exact h.history hv

/-! ## Every operation keeps them -/

/-- The device takes a block for one of its slots as an entry. -/
theorem receive_entry {code : Byte} {i : Fin rmiSmb2MapSize} (hslot : slotOf code = some i) (buf : List Byte) :
    ∃ e, s.receive code buf = { s with deviceTable := Function.update s.deviceTable i e } ∧
      (0 ≤ (s.fault.map Fault.error).getD 0 → ∀ e', MappingTableEntry.ofBytes buf = some e' → e = e') := by
  cases hfault : s.fault with
  | none =>
    refine ⟨(MappingTableEntry.ofBytes buf).getD (s.deviceTable i), ?_, fun _ e' he' => ?_⟩
    · unfold Transport.receive
      rw [hslot, hfault]
    · rw [he']
      rfl
  | some f =>
    refine ⟨f.entry, ?_, fun h => absurd f.negative (Int.not_lt.mpr h)⟩
    unfold Transport.receive
    rw [hslot, hfault]

/-- A prefix of the block reaches the device, the whole of it when there is no error. -/
theorem Transport.delivered_take (s : Transport) (buf : List Byte) :
    ∃ k, s.delivered buf = buf.take k ∧ (0 ≤ (s.fault.map Fault.error).getD 0 → k = buf.length) := by
  cases hfault : s.fault with
  | none => exact ⟨buf.length, by simp only [Transport.delivered, hfault, List.take_length], fun _ => rfl⟩
  | some f =>
    exact ⟨f.taken, by simp only [Transport.delivered, hfault], fun h => absurd f.negative (Int.not_lt.mpr h)⟩

/-- The device takes a block for a mapped command code as registers. -/
theorem receive_registers {code : Byte} {buf : List Byte} {i : Fin rmiSmb2MapSize} {e : MappingTableEntry}
    (hslot : slotOf code = none) (hentry : entryOf code = some i) (hdevice : s.deviceTable i = e)
    (hwe : e.flags &&& rmiSmb2MapFlagsWe ≠ 0) :
    s.receive code buf = { s with
      regs := writeRow s.regs e.rmiaddr (s.delivered buf)
      trace := s.trace ++ row .write e.rmiaddr (s.delivered buf) } := by
  unfold Transport.receive
  rw [hslot, hentry]
  dsimp only
  rw [hdevice, if_pos hwe]

/-- A new entry of the log is the thread's own. -/
theorem logOf_append_self {x : Transfer RmiAddr Byte} (hlog : s'.log = s.log ++ [(some t, x)]) :
    s'.logOf t = s.logOf t ++ [x] := by
  simp [Transport.logOf, hlog, List.filter_append]

/-- None of another thread's is added to. -/
theorem logOf_append_of_ne {x : Transfer RmiAddr Byte} {who : Option ℕ} (hlog : s'.log = s.log ++ [(who, x)])
    (h : who ≠ some u) : s'.logOf u = s.logOf u := by
  simp [Transport.logOf, hlog, List.filter_append, h]

/-- Accesses that perform a transfer are one step of a register file. -/
theorem Performed.step {trace : List (Access RmiAddr Byte)} {x : Transfer RmiAddr Byte} {regs regs' : Regs}
    (h : Performed c trace x) (htakes : Takes regs trace regs') : x.Step regs regs' := by
  cases h with
  | read rmiaddr databuff len ok bytes hlen hok => exact .of_reads htakes hlen hok
  | write rmiaddr databuff ok k hok => exact .of_writes htakes hok

/-- What an operation `o` of thread `t` with account `l` has to keep. -/
structure Kept (volatile : Bool) (t : ℕ) (l : Account) (o : Op) (r : o.Ans) (s s' : Transport) : Prop where
  inv : Inv volatile s'
  account : ∃ l', l.moves o r l' ∧ Tie t l' s'
  others : ∀ u, u ≠ t → Spares u s s'

section Steps

variable {l : Account} (hinv : Inv volatile s) (ht : Tie t l s)

include hinv ht

/-- The page mutex is taken. -/
theorem lock_page_kept (hstale : s.stale = false) (hfree : s.pageMutex = none) :
    Kept volatile t l (.lock .page) () s { s with pageMutex := some t } where
  inv := ⟨hinv.coherent, fun _ => hstale, fun h => (nomatch h), hinv.history⟩
  account := by
    refine ⟨_, rfl, ⟨by simp, ht.mapping, ht.coherent, fun _ i e h => (nomatch h), fun _ => hinv.trace hfree, ht.logged⟩⟩
  others u hu := by
    have hno : s.pageMutex ≠ some u := by rw [hfree]; nofun
    refine ⟨⟨fun h => ?_, fun h => absurd h hno⟩, Iff.rfl, fun h => absurd h hno, fun h => absurd h hno,
      fun _ h => ⟨h, fun _ hi => hi⟩, rfl⟩
    exact absurd (Option.some.inj h).symm hu

/-- The page mutex is given up. -/
theorem unlock_page_kept (hallow : l.allows (.unlock .page)) :
    Kept volatile t l (.unlock .page) () s { s with pageMutex := none } where
  inv := by
    refine ⟨hinv.coherent, fun h => absurd rfl h, fun _ => ?_, hinv.history⟩
    exact (ht.done hallow.1).trans hallow.2
  account := by
    refine ⟨_, rfl, ⟨by simp, ht.mapping, ht.coherent, fun h => (nomatch h), fun h => (nomatch h), ht.logged⟩⟩
  others u hu := by
    have hno : s.pageMutex ≠ some u := by
      rw [ht.page.mp hallow.1]
      exact fun h => hu (Option.some.inj h).symm
    exact ⟨⟨fun h => (nomatch h), fun h => absurd h hno⟩, Iff.rfl, fun h => absurd h hno, fun h => absurd h hno,
      fun _ h => ⟨h, fun _ hi => hi⟩, rfl⟩

/-- The mutex of the table is taken. -/
theorem lock_mappingtable_kept (hfree : s.mappingtableMutex = none) :
    Kept volatile t l (.lock .mappingtable) () s { s with mappingtableMutex := some t } where
  inv := ⟨fun h => (nomatch h), hinv.page, hinv.trace, hinv.history⟩
  account := by
    refine ⟨_, rfl, ⟨ht.page, by simp, fun _ hs i _ => hinv.coherent hfree hs i, ht.known, ht.done, ht.logged⟩⟩
  others u hu := by
    have hno : s.mappingtableMutex ≠ some u := by rw [hfree]; nofun
    refine ⟨Iff.rfl, ⟨fun h => ?_, fun h => absurd h hno⟩, fun _ => rfl, fun _ => rfl, fun h => absurd h hno, rfl⟩
    exact absurd (Option.some.inj h).symm hu

/-- The mutex of the table is given up. -/
theorem unlock_mappingtable_kept (hallow : l.allows (.unlock .mappingtable)) :
    Kept volatile t l (.unlock .mappingtable) () s { s with mappingtableMutex := none } where
  inv := by
    refine ⟨fun _ hs i => ht.coherent hallow.1 hs i ?_, hinv.page, hinv.trace, hinv.history⟩
    rw [hallow.2]
    nofun
  account := by
    refine ⟨_, rfl, ⟨ht.page, by simp, fun h => (nomatch h), ht.known, ht.done, ht.logged⟩⟩
  others u hu := by
    have hno : s.mappingtableMutex ≠ some u := by
      rw [ht.mapping.mp hallow.1]
      exact fun h => hu (Option.some.inj h).symm
    exact ⟨Iff.rfl, ⟨fun h => (nomatch h), fun h => absurd h hno⟩, fun _ => rfl, fun _ => rfl, fun h => absurd h hno, rfl⟩

/-- What the driver remembers, the device has: the thread that looks knows it from then on. -/
theorem mappingTable_kept (hallow : l.allows .mappingTable) : Kept volatile t l .mappingTable s.mappingTable s s where
  inv := hinv
  account := by
    obtain ⟨hpage, hmapping, hpending⟩ := hallow
    refine ⟨_, rfl, ⟨ht.page, ht.mapping, ht.coherent, fun _ i e h => ?_, ht.done, ht.logged⟩⟩
    obtain ⟨hzero, he⟩ := Option.ite_none_left_eq_some.mp h
    have hstale : s.stale = false := by
      refine hinv.page ?_
      rw [ht.page.mp hpage]
      nofun
    have hcoherent : s.Coherent i := ht.coherent hmapping hstale i (by rw [hpending]; nofun)
    rw [hcoherent.resolve_left hzero]
    exact Option.some.inj he
  others _ _ := .of_eq rfl rfl rfl rfl rfl rfl rfl

/-- The entry the device has been sent is remembered; or the slot is cleared. -/
theorem setMappingTable_kept {i : Fin rmiSmb2MapSize} {e : MappingTableEntry} (hallow : l.allows (.setMappingTable i e)) :
    Kept volatile t l (.setMappingTable i e) () s
      { s with mappingTable := Function.update s.mappingTable i e, noted := e :: s.noted } where
  inv := by
    refine ⟨fun h => ?_, hinv.page, hinv.trace, hinv.history⟩
    have hheld : s.mappingtableMutex = some t := ht.mapping.mp hallow.2.1
    cases h.symm.trans hheld
  account := by
    obtain ⟨hpage, hmapping, hpending, hentry⟩ := hallow
    refine ⟨_, rfl, ⟨ht.page, ht.mapping, fun _ hs j _ => ?_, ht.known, ht.done, ht.logged⟩⟩
    by_cases hij : j = i
    · subst hij
      refine hentry.imp (fun h => ?_) fun h => ?_
      · change Function.update s.mappingTable j e j = .zero
        rw [Function.update_self, h]
      · change s.deviceTable j = Function.update s.mappingTable j e j
        rw [Function.update_self]
        exact ht.known hpage j e h
    · have hcoherent : s.Coherent j := by
        refine ht.coherent hmapping hs j ?_
        rw [hpending]
        exact fun h => hij (Option.some.inj h).symm
      change Function.update s.mappingTable i e j = .zero ∨ s.deviceTable j = Function.update s.mappingTable i e j
      rw [Function.update_of_ne hij]
      exact hcoherent
  others u hu := by
    have hno : s.mappingtableMutex ≠ some u := by
      rw [ht.mapping.mp hallow.2.1]
      exact fun h => hu (Option.some.inj h).symm
    exact ⟨Iff.rfl, Iff.rfl, fun _ => rfl, fun _ => rfl, fun h => absurd h hno, rfl⟩

/-- A driver that remembers nothing agrees with every device. -/
theorem clearMappingTable_kept (hallow : l.allows .clearMappingTable) :
    Kept volatile t l .clearMappingTable () s { s with mappingTable := fun _ => .zero, noted := [], stale := false } where
  inv := ⟨fun _ _ _ => Or.inl rfl, fun _ => rfl, hinv.trace, hinv.history⟩
  account := ⟨_, rfl, ⟨ht.page, ht.mapping, fun _ _ _ _ => Or.inl rfl, ht.known, ht.done, ht.logged⟩⟩
  others u hu := by
    have hno : s.mappingtableMutex ≠ some u := by
      rw [ht.mapping.mp hallow.1]
      exact fun h => hu (Option.some.inj h).symm
    exact ⟨Iff.rfl, Iff.rfl, fun _ => rfl, fun _ => rfl, fun h => absurd h hno, rfl⟩

/-- A new entry is on its way: until the driver has caught up, it is not relied on. -/
theorem writeEntry_kept {code : Byte} {buf : List Byte} {i : Fin rmiSmb2MapSize} (hslot : slotOf code = some i)
    (hallow : l.allows (.writeBlockData code buf)) :
    Kept volatile t l (.writeBlockData code buf) ((s.fault.map Fault.error).getD 0) s (s.receive code buf) := by
  obtain ⟨hpage, hwrites⟩ := hallow
  unfold Account.writes at hwrites
  rw [hslot] at hwrites
  obtain ⟨hmapping, hpending⟩ := hwrites
  obtain ⟨e, hreceive, he⟩ := receive_entry (s := s) hslot buf
  rw [hreceive]
  refine ⟨⟨fun h => ?_, hinv.page, hinv.trace, hinv.history⟩,
    ⟨_, Account.moves_writeBlockData.mpr ((Account.wrote_entry hslot).mpr rfl), ?_⟩, fun u hu => ?_⟩
  · cases h.symm.trans (ht.mapping.mp hmapping)
  · refine ⟨ht.page, ht.mapping, fun _ hs j hj => ?_, fun _ j e' h => ?_, ht.done, ht.logged⟩
    · have hij : j ≠ i := fun h => hj (congrArg some h.symm)
      change s.mappingTable j = .zero ∨ Function.update s.deviceTable i e j = s.mappingTable j
      rw [Function.update_of_ne hij]
      exact ht.coherent hmapping hs j (by rw [hpending]; nofun)
    · change Function.update s.deviceTable i e j = e'
      change Function.update l.known i _ j = some e' at h
      by_cases hij : j = i
      · subst hij
        rw [Function.update_self] at h ⊢
        obtain ⟨hok, hof⟩ := Option.ite_none_left_eq_some.mp h
        exact he (Int.not_lt.mp hok) e' hof
      · rw [Function.update_of_ne hij] at h ⊢
        exact ht.known hpage j e' h
  · have hnopage : s.pageMutex ≠ some u := by
      rw [ht.page.mp hpage]
      exact fun h => hu (Option.some.inj h).symm
    have hnomapping : s.mappingtableMutex ≠ some u := by
      rw [ht.mapping.mp hmapping]
      exact fun h => hu (Option.some.inj h).symm
    exact ⟨Iff.rfl, Iff.rfl, fun h => absurd h hnopage, fun _ => rfl, fun h => absurd h hnomapping, rfl⟩

/-- Registers are written, or the first of them. -/
theorem writeRegisters_kept {code : Byte} {buf : List Byte} (hslot : slotOf code = none)
    (hallow : l.allows (.writeBlockData code buf)) :
    Kept volatile t l (.writeBlockData code buf) ((s.fault.map Fault.error).getD 0) s (s.receive code buf) := by
  obtain ⟨hpage, hwrites⟩ := hallow
  unfold Account.writes at hwrites
  rw [hslot] at hwrites
  obtain ⟨e, ⟨i, hentry, hknown⟩, hwe⟩ := hwrites
  have hdevice : s.deviceTable i = e := ht.known hpage i e hknown
  obtain ⟨k, hdelivered, hk⟩ := s.delivered_take buf
  rw [receive_registers hslot hentry hdevice hwe, hdelivered]
  refine ⟨⟨hinv.coherent, hinv.page, fun h => ?_, fun hv => ?_⟩,
    ⟨_, Account.moves_writeBlockData.mpr ((Account.wrote_registers hslot).mpr ⟨e, k, ⟨i, hentry, hknown⟩, hk, rfl⟩), ?_⟩,
    fun u hu => ?_⟩
  · cases h.symm.trans (ht.page.mp hpage)
  · obtain ⟨regs, hruns, htakes⟩ := hinv.history hv
    exact ⟨regs, hruns, htakes.append (takes_writeRow _ _ _)⟩
  · refine ⟨ht.page, ht.mapping, ht.coherent, ht.known, fun _ => ?_, ht.logged⟩
    rw [← ht.done hpage]
  · have hnopage : s.pageMutex ≠ some u := by
      rw [ht.page.mp hpage]
      exact fun h => hu (Option.some.inj h).symm
    exact ⟨Iff.rfl, Iff.rfl, fun _ => rfl, fun h => absurd h hnopage, fun _ h => ⟨h, fun _ hi => hi⟩, rfl⟩

/-- A block is read. -/
theorem readBlockData_kept {code : Byte} {r : Int × List Byte} (hallow : l.allows (.readBlockData code))
    (hexec : exec t (.readBlockData code) s = some (r, s')) : Kept volatile t l (.readBlockData code) r s s' := by
  obtain ⟨hpage, e, i, hentry, hknown⟩ := hallow
  have hdevice : s.deviceTable i = e := ht.known hpage i e hknown
  cases hfault : s.fault with
  | some f =>
    simp only [exec, hfault, Option.some.injEq, Prod.mk.injEq] at hexec
    obtain ⟨rfl, rfl⟩ := hexec
    exact ⟨hinv, ⟨l, Or.inl ⟨f.negative, rfl⟩, ht⟩, fun _ _ => .of_eq rfl rfl rfl rfl rfl rfl rfl⟩
  | none =>
    simp only [exec, hfault, Transport.mapped, hentry, Option.map_some, hdevice, Option.some.injEq,
      Prod.mk.injEq] at hexec
    obtain ⟨rfl, rfl⟩ := hexec
    refine ⟨⟨hinv.coherent, hinv.page, fun h => ?_, fun hv => ?_⟩, ⟨{ l with
        done := l.done ++ row .read e.rmiaddr (readRow s.regs e.rmiaddr e.readcount.toNat) },
        Or.inr ⟨Int.natCast_nonneg _, e, ⟨i, hentry, hknown⟩, length_readRow _, rfl⟩, ?_⟩, fun u hu => ?_⟩
    · cases h.symm.trans (ht.page.mp hpage)
    · obtain ⟨regs, hruns, htakes⟩ := hinv.history hv
      exact ⟨regs, hruns, htakes.append (takes_readRow _ _ _)⟩
    · refine ⟨ht.page, ht.mapping, ht.coherent, ht.known, fun _ => ?_, ht.logged⟩
      rw [← ht.done hpage]
    · have hnopage : s.pageMutex ≠ some u := by
        rw [ht.page.mp hpage]
        exact fun h => hu (Option.some.inj h).symm
      exact ⟨Iff.rfl, Iff.rfl, fun _ => rfl, fun h => absurd h hnopage, fun _ h => ⟨h, fun _ hi => hi⟩, rfl⟩

/-- The accesses made under the page mutex amount to the transfer. -/
theorem leaves_kept {x : Transfer RmiAddr Byte} (hallow : l.allows (.leaves x)) :
    Kept volatile t l (.leaves x) () s { s with log := s.log ++ [(some t, x)], trace := [] } := by
  obtain ⟨hpage, hlogged, c, hcall, hperformed⟩ := hallow
  refine ⟨⟨hinv.coherent, hinv.page, fun _ => rfl, fun hv => ?_⟩, ⟨_, rfl, ?_⟩, fun u hu => ?_⟩
  · obtain ⟨regs, hruns, htakes⟩ := hinv.history hv
    rw [ht.done hpage] at htakes
    refine ⟨s.regs, ?_, rfl⟩
    rw [List.map_append, List.map_cons, List.map_nil]
    exact hruns.snoc (hperformed.step htakes)
  · refine ⟨ht.page, ht.mapping, ht.coherent, ht.known, fun _ => rfl, ?_⟩
    change Transport.logOf _ t = [x]
    rw [logOf_append_self rfl, ht.logged, hlogged]
    rfl
  · have hnopage : s.pageMutex ≠ some u := by
      rw [ht.page.mp hpage]
      exact fun h => hu (Option.some.inj h).symm
    exact ⟨Iff.rfl, Iff.rfl, fun _ => rfl, fun h => absurd h hnopage, fun _ h => ⟨h, fun _ hi => hi⟩,
      logOf_append_of_ne rfl fun h => hu (Option.some.inj h).symm⟩

/-- The step lemma. -/
theorem exec_kept {o : Op} {r : o.Ans} (hallow : l.allows o) (hadmits : admits o s = true)
    (hexec : exec t o s = some (r, s')) : Kept volatile t l o r s s' := by
  cases o with
  | lock m =>
    obtain ⟨hfree, hs'⟩ := Option.ite_none_right_eq_some.mp hexec
    cases hs'
    cases m with
    | page => exact lock_page_kept hinv ht (by simpa [admits] using hadmits) hfree
    | mappingtable => exact lock_mappingtable_kept hinv ht hfree
  | unlock m =>
    cases hexec
    cases m with
    | page => exact unlock_page_kept hinv ht hallow
    | mappingtable => exact unlock_mappingtable_kept hinv ht hallow
  | mappingTable =>
    cases hexec
    exact mappingTable_kept hinv ht hallow
  | setMappingTable i e =>
    cases hexec
    exact setMappingTable_kept hinv ht hallow
  | clearMappingTable =>
    cases hexec
    exact clearMappingTable_kept hinv ht hallow
  | writeBlockData code buf =>
    cases hexec
    cases hslot : slotOf code with
    | some i => exact writeEntry_kept hinv ht hslot hallow
    | none => exact writeRegisters_kept hinv ht hslot hallow
  | readBlockData code => exact readBlockData_kept hinv ht hallow hexec
  | leaves x =>
    cases hexec
    exact leaves_kept hinv ht hallow
  | setTableIndex i =>
    cases hexec
    exact ⟨hinv.of_eq rfl rfl rfl rfl rfl rfl rfl rfl fun _ => rfl,
      ⟨l, rfl, ht.spared (.of_eq rfl rfl rfl rfl rfl rfl rfl)⟩, fun _ _ => .of_eq rfl rfl rfl rfl rfl rfl rfl⟩
  | _ =>
    cases hexec
    exact ⟨hinv, ⟨l, rfl, ht⟩, fun _ _ => .of_eq rfl rfl rfl rfl rfl rfl rfl⟩

end Steps

end HostNotify.Rmi
