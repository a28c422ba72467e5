import HostNotify.RotatingTable
import HostNotify.Rmi.Blocks

/-!
# The slots of the mapping table take turns

An entry is sent to the device only when no slot serves the block, and it goes where the oldest
entry is. So transfers that keep to eight kinds of blocks fill the table once.
-/

namespace HostNotify.Rmi

open Interleaving RegisterFile RotatingTable

variable {volatile prompt : Bool} {s s' : Transport} {t u : ℕ} {c : Call} {p : Pool Transport Op Op.Ans Call}
  {table : MappingTable} {rmiaddr : RmiAddr} {isread : Bool}

/-! ## Where a thread stands with the table -/

/-- How far a thread has got with the driver's table. -/
inductive Stage where
  | away
  /-- It holds the mutex. -/
  | inside
  /-- It has looked through the table. -/
  | looked (table : MappingTable)
  /-- It has looked up whose turn it is. -/
  | chose (table : MappingTable) (i : Fin rmiSmb2MapSize)
  /-- It has passed the turn on. -/
  | passed (table : MappingTable) (i : Fin rmiSmb2MapSize)

/-- The operations at a stage. -/
def Stage.allows : Stage → Op → Prop
  | l, .lock .mappingtable => l = .away
  | l, .unlock .mappingtable => l = .inside ∨ ∃ table, l = .looked table
  | l, .mappingTable => l = .inside
  | l, .tableIndex => ∃ table, l = .looked table
  | l, .setTableIndex k => ∃ table i, l = .chose table i ∧ k = turn i
  | l, .setMappingTable i e => ∃ table, l = .passed table i ∧ (e ≠ .zero → ∀ j, table j ≠ e)
  | l, .clearMappingTable => l = .inside
  | _, _ => True

/-- The stage after an operation. -/
def Stage.moves : Stage → (o : Op) → o.Ans → Stage → Prop
  | _, .lock .mappingtable, _, l' => l' = .inside
  | _, .unlock .mappingtable, _, l' => l' = .away
  | _, .mappingTable, table, l' => l' = .looked table
  | l, .tableIndex, i, l' => ∃ table, l = .looked table ∧ l' = .chose table i
  | l, .setTableIndex _, _, l' => ∃ table i, l = .chose table i ∧ l' = .passed table i
  | _, .setMappingTable _ _, _, l' => l' = .inside
  | _, .clearMappingTable, _, l' => l' = .inside
  | l, _, _, l' => l' = l

/-- The rules of the stages. -/
def staging : Ledger Op Op.Ans Stage where
  allows := Stage.allows
  moves := Stage.moves

/-- The driver's table is in order when `next` has the turn. -/
def Transport.Ordered (s : Transport) (next : Fin rmiSmb2MapSize) : Prop :=
  Rotated s.mappingTable next s.noted

/-- Thread `t` is at the stage. -/
def Stands (t : ℕ) (s : Transport) : Stage → Prop
  | .away => s.mappingtableMutex ≠ some t
  | .inside => s.mappingtableMutex = some t ∧ s.Ordered s.tableIndex
  | .looked table => s.mappingtableMutex = some t ∧ s.Ordered s.tableIndex ∧ s.mappingTable = table
  | .chose table i => s.mappingtableMutex = some t ∧ s.Ordered i ∧ s.mappingTable = table ∧ s.tableIndex = i
  | .passed table i =>
    s.mappingtableMutex = some t ∧ s.Ordered i ∧ s.mappingTable = table ∧ s.tableIndex = turn i

/-- Entries have been put in by turns, and none that was still there. -/
structure Turns (s : Transport) : Prop where
  ordered : s.mappingtableMutex = none → s.Ordered s.tableIndex
  spaced : Spaced rmiSmb2MapSize (· = MappingTableEntry.zero) s.noted

/-- A thread that is in the table has its mutex. -/
theorem Stands.held {l : Stage} (h : Stands t s l) (hl : l ≠ .away) : s.mappingtableMutex = some t := by
  cases l with
  | away => exact absurd rfl hl
  | _ => exact h.1

/-- A step that leaves the mutex and the driver's table alone. -/
structure Apart (s s' : Transport) : Prop where
  mutex : s'.mappingtableMutex = s.mappingtableMutex
  table : s'.mappingTable = s.mappingTable
  index : s'.tableIndex = s.tableIndex
  noted : s'.noted = s.noted

/-- A step that leaves the table alone leaves its order as it is. -/
theorem Apart.ordered {i : Fin rmiSmb2MapSize} (h : Apart s s') (ho : s.Ordered i) : s'.Ordered i := by
  rw [Transport.Ordered, h.table, h.noted]
  exact ho

/-- Such a step leaves every thread where it stands. -/
theorem Apart.stands {l : Stage} (h : Apart s s') (hl : Stands t s l) : Stands t s' l := by
  cases l with
  | away => exact fun hholds => hl (h.mutex.symm.trans hholds)
  | inside => exact ⟨h.mutex.trans hl.1, h.index ▸ h.ordered hl.2⟩
  | looked table => exact ⟨h.mutex.trans hl.1, h.index ▸ h.ordered hl.2.1, h.table.trans hl.2.2⟩
  | chose table i => exact ⟨h.mutex.trans hl.1, h.ordered hl.2.1, h.table.trans hl.2.2.1, h.index.trans hl.2.2.2⟩
  | passed table i => exact ⟨h.mutex.trans hl.1, h.ordered hl.2.1, h.table.trans hl.2.2.1, h.index.trans hl.2.2.2⟩

/-- Such a step leaves the turns as they are. -/
theorem Apart.turns (h : Apart s s') (hs : Turns s) : Turns s' :=
  ⟨fun hfree => h.index ▸ h.ordered (hs.ordered (h.mutex ▸ hfree)), h.noted ▸ hs.spaced⟩

/-- What the holder of the mutex does, the others do not notice. -/
theorem Stands.other {l : Stage} (hu : u ≠ t) (hheld : s.mappingtableMutex = some t)
    (hafter : s'.mappingtableMutex = some t ∨ s'.mappingtableMutex = none) (h : Stands u s l) :
    Stands u s' l := by
  have haway : l = .away := by
    by_contra hl
    exact hu (Option.some.inj ((h.held hl).symm.trans hheld))
  subst haway
  intro hholds
  rcases hafter with hafter | hafter
  · exact hu (Option.some.inj (hholds.symm.trans hafter))
  · cases hholds.symm.trans hafter

/-- The step lemma. -/
theorem exec_turns {l : Stage} {o : Op} {r : o.Ans} (hs : Turns s) (hl : Stands t s l) (hallow : l.allows o)
    (hexec : exec t o s = some (r, s')) :
    Turns s' ∧ (∃ l', l.moves o r l' ∧ Stands t s' l') ∧ ∀ u m, u ≠ t → Stands u s m → Stands u s' m := by
  have hapart : ∀ s', Apart s s' → Turns s' ∧ Stands t s' l ∧ ∀ u m, u ≠ t → Stands u s m → Stands u s' m :=
    fun s' h => ⟨h.turns hs, h.stands hl, fun u m _ hm => h.stands hm⟩
  cases o with
  | lock m =>
    obtain ⟨hfree, hs'⟩ := Option.ite_none_right_eq_some.mp hexec
    cases hs'
    cases m with
    | page =>
      obtain ⟨h₁, h₂, h₃⟩ := hapart { s with pageMutex := some t } ⟨rfl, rfl, rfl, rfl⟩
      exact ⟨h₁, ⟨l, rfl, h₂⟩, h₃⟩
    | mappingtable =>
      refine ⟨⟨fun h => (nomatch h), hs.spaced⟩, ⟨_, rfl, rfl, hs.ordered hfree⟩, fun u m hu hm => ?_⟩
      have haway : m = .away := by
        by_contra hne
        cases (hm.held hne).symm.trans hfree
      subst haway
      exact fun h => hu (Option.some.inj h).symm
  | unlock m =>
    cases hexec
    cases m with
    | page =>
      obtain ⟨h₁, h₂, h₃⟩ := hapart { s with pageMutex := none } ⟨rfl, rfl, rfl, rfl⟩
      exact ⟨h₁, ⟨l, rfl, h₂⟩, h₃⟩
    | mappingtable =>
      obtain ⟨hheld, hordered⟩ : s.mappingtableMutex = some t ∧ s.Ordered s.tableIndex := by
        rcases hallow with rfl | ⟨table, rfl⟩
        · exact hl
        · exact ⟨hl.1, hl.2.1⟩
      exact ⟨⟨fun _ => hordered, hs.spaced⟩, ⟨_, rfl, fun h => (nomatch h)⟩,
        fun u m hu hm => hm.other hu hheld (Or.inr rfl)⟩
  | mappingTable =>
    cases hexec
    obtain rfl : l = .inside := hallow
    exact ⟨hs, ⟨_, rfl, hl.1, hl.2, rfl⟩, fun _ _ _ h => h⟩
  | tableIndex =>
    cases hexec
    obtain ⟨table, rfl⟩ := hallow
    exact ⟨hs, ⟨_, ⟨table, rfl, rfl⟩, hl.1, hl.2.1, hl.2.2, rfl⟩, fun _ _ _ h => h⟩
  | setTableIndex k =>
    cases hexec
    obtain ⟨table, i, rfl, rfl⟩ := hallow
    refine ⟨⟨fun h => ?_, hs.spaced⟩, ⟨_, ⟨table, i, rfl, rfl⟩, hl.1, hl.2.1, hl.2.2.1, rfl⟩,
      fun u m hu hm => hm.other hu hl.1 (Or.inl hl.1)⟩
    cases h.symm.trans hl.1
  | setMappingTable i e =>
    cases hexec
    obtain ⟨table, rfl, hnew⟩ := hallow
    obtain ⟨hheld, hordered, rfl, hindex⟩ := hl
    refine ⟨⟨fun h => ?_, hs.spaced.put hordered hnew⟩, ⟨_, rfl, hheld, ?_⟩,
      fun u m hu hm => hm.other hu hheld (Or.inl hheld)⟩
    · cases h.symm.trans hheld
    · change Rotated (Function.update s.mappingTable i e) s.tableIndex (e :: s.noted)
      rw [hindex]
      exact Rotated.put hordered
  | clearMappingTable =>
    cases hexec
    obtain rfl : l = .inside := hallow
    exact ⟨⟨fun _ => rotated_nil, spaced_nil⟩, ⟨_, rfl, hl.1, rotated_nil⟩,
      fun u m hu hm => hm.other hu hl.1 (Or.inl hl.1)⟩
  | writeBlockData code buf =>
    cases hexec
    have hreceive : Apart s (s.receive code buf) := by
      unfold Transport.receive
      split
      · split <;> exact ⟨rfl, rfl, rfl, rfl⟩
      · split
        · split <;> exact ⟨rfl, rfl, rfl, rfl⟩
        · exact ⟨rfl, rfl, rfl, rfl⟩
    obtain ⟨h₁, h₂, h₃⟩ := hapart _ hreceive
    exact ⟨h₁, ⟨l, rfl, h₂⟩, h₃⟩
  | readBlockData code =>
    have hread : Apart s s' := by
      cases hfault : s.fault with
      | some f =>
        simp only [exec, hfault, Option.some.injEq, Prod.mk.injEq] at hexec
        exact hexec.2 ▸ ⟨rfl, rfl, rfl, rfl⟩
      | none =>
        cases hmapped : s.mapped code <;>
          simp only [exec, hfault, hmapped, Option.some.injEq, Prod.mk.injEq] at hexec <;>
          exact hexec.2 ▸ ⟨rfl, rfl, rfl, rfl⟩
    obtain ⟨h₁, h₂, h₃⟩ := hapart _ hread
    exact ⟨h₁, ⟨l, rfl, h₂⟩, h₃⟩
  | leaves x =>
    cases hexec
    obtain ⟨h₁, h₂, h₃⟩ := hapart { s with log := s.log ++ [(some t, x)], trace := [] } ⟨rfl, rfl, rfl, rfl⟩
    exact ⟨h₁, ⟨l, rfl, h₂⟩, h₃⟩
  | readByteData | resetDelayMs | msleep =>
    cases hexec
    exact ⟨hs, ⟨l, rfl, hl⟩, fun _ _ _ h => h⟩

/-! ## The code goes through the stages -/

/-- The code begins and ends away from the table. -/
abbrev Tidy {A : Type} (q : Driver A) : Prop := Obeys staging (· = .away) q fun _ => (· = .away)

/-- An operation that any stage allows and none is changed by. -/
theorem tidy_op {o : Op} (hallow : ∀ l : Stage, l.allows o)
    (hmoves : ∀ (l l' : Stage) (r : o.Ans), l.moves o r l' → l' = l) :
    Tidy (perform o) :=
  .perform fun l hl => ⟨hallow l, fun r l' h => (hmoves l l' r h).trans hl⟩

/-- One operation that leads from one stage to the next. -/
theorem move_obeys {o : Op} {l : Stage} (next : o.Ans → Stage) (hallow : l.allows o)
    (hmoves : ∀ r l', l.moves o r l' → l' = next r) : Obeys staging (· = l) (perform o) fun r => (· = next r) := by
  refine .perform ?_
  rintro _ rfl
  exact ⟨hallow, hmoves⟩

/-- What is put into the table serves the block, and nothing in the table did. -/
theorem rmiSmbGetCommandCode_tidy {bytecount : ℕ} (hmax : bytecount ≤ smbMaxCount) :
    Tidy (rmiSmbGetCommandCode rmiaddr bytecount isread) := by
  have hunlock : ∀ l : Stage, (l = .inside ∨ ∃ table, l = .looked table) →
      Obeys staging (· = l) (unlock .mappingtable) fun _ => (· = .away) :=
    fun l hl => move_obeys _ hl fun _ _ h => h
  refine .bind (move_obeys (fun _ => .inside) rfl fun _ _ h => h) fun _ => ?_
  refine .bind (move_obeys (o := .mappingTable) .looked rfl fun _ _ h => h) fun table => ?_
  cases hfind : MappingTable.find table rmiaddr bytecount isread with
  | some i => exact .bind (hunlock _ (Or.inr ⟨table, rfl⟩)) fun _ => .ret fun _ h => h
  | none =>
    have hnone : ∀ j, (table j).serves rmiaddr bytecount isread = false := by
      intro j
      have hj := List.find?_eq_none.mp hfind j (List.mem_finRange j)
      simpa using hj
    refine .bind (move_obeys (.chose table) ⟨table, rfl⟩ ?_) fun i => ?_
    · rintro i l' ⟨table', hl', rfl⟩
      obtain rfl : table = table' := Stage.looked.inj hl'
      rfl
    refine .bind (move_obeys (fun _ => .passed table i) ⟨table, i, rfl, rfl⟩ ?_) fun _ => ?_
    · rintro _ l' ⟨table', i', hl', rfl⟩
      obtain ⟨rfl, rfl⟩ := Stage.chose.inj hl'
      rfl
    refine .bind (move_obeys (fun _ => .passed table i) trivial fun _ _ h => h) fun retval => ?_
    refine .bind (move_obeys (fun _ => .inside) ⟨table, rfl, fun hnonzero j hj => ?_⟩ fun _ _ h => h)
      fun _ => .bind (hunlock _ (Or.inl rfl)) fun _ => ?_
    · have hserves := hnone j
      split at hj
      · next herror => exact hnonzero (if_pos herror)
      · rw [hj, serves_made hmax] at hserves
        cases hserves
    · split <;> exact .ret fun _ h => h

/-- The writing of a block does not concern the table. -/
theorem smbBlockWrite_tidy (code : Byte) (buf : List Byte) : Tidy (smbBlockWrite code buf) :=
  tidy_op (fun _ => trivial) fun _ _ _ h => h

/-- A loop of blocks leaves the table in order, block by block. -/
theorem writeBlocks_tidy (left : ℕ) (rmiaddr : RmiAddr) (databuff : List Byte) :
    Tidy (writeBlocks left rmiaddr databuff) := by
  induction left generalizing rmiaddr databuff with
  | zero => exact .ret fun _ h => h
  | succ left ih =>
    unfold writeBlocks
    split
    · exact .ret fun _ h => h
    · refine .bind (rmiSmbGetCommandCode_tidy (Nat.min_le_right _ _)) fun r => ?_
      cases r with
      | error retval => exact .ret fun _ h => h
      | ok code =>
        refine .bind (smbBlockWrite_tidy _ _) fun retval => ?_
        split
        · exact .ret fun _ h => h
        · exact ih _ _

/-- The loop of a block read leaves the table in order, block by block. -/
theorem readBlocks_tidy (left : ℕ) (rmiaddr : RmiAddr) (pos curLen : ℕ) (buf : ℕ → Byte) :
    Tidy (readBlocks left rmiaddr pos curLen buf) := by
  induction left generalizing rmiaddr pos curLen buf with
  | zero => exact .ret fun _ h => h
  | succ left ih =>
    unfold readBlocks
    split
    · exact .ret fun _ h => h
    · refine .bind (rmiSmbGetCommandCode_tidy (Nat.min_le_right _ _)) fun r => ?_
      cases r with
      | error retval => exact .ret fun _ h => h
      | ok code =>
        refine .bind (tidy_op (fun _ => trivial) fun _ _ _ h => h) fun r => ?_
        split
        · exact .ret fun _ h => h
        · exact ih _ _ _ _

/-- The page mutex does not concern the table. -/
theorem lock_page_tidy : Tidy (lock .page) := tidy_op (fun _ => trivial) fun _ _ _ h => h

/-- The end of a transfer does not concern the table. -/
theorem leaves_tidy {A : Type} (x : Transfer RmiAddr Byte) (a : A) :
    Tidy (do perform (.leaves x); unlock .page; pure a : Driver A) :=
  .bind (tidy_op (fun _ => trivial) fun _ _ _ h => h) fun _ =>
    .bind (tidy_op (fun _ => trivial) fun _ _ _ h => h) fun _ => .ret fun _ h => h

/-- A reset clears the table under its mutex. -/
theorem rmiSmbReset_tidy : Tidy rmiSmbReset := by
  have hclear : Tidy rmiSmbClearState :=
    .bind (move_obeys (fun _ => .inside) rfl fun _ _ h => h) fun _ =>
      .bind (move_obeys (fun _ => .inside) rfl fun _ _ h => h) fun _ =>
        move_obeys (fun _ => .away) (Or.inl rfl) fun _ _ h => h
  refine .bind hclear fun _ => .of_allOps enableSmbusMode_allOps fun o l ho hl => ?_
  rcases ho with rfl | ⟨code, rfl⟩ | ⟨ms, rfl⟩ <;> exact ⟨trivial, fun _ _ h => h.trans hl⟩

/-- Every call leaves the table in order. -/
theorem body_tidy (c : Call) : Tidy c.body := by
  cases c with
  | readBlock rmiaddr databuff len =>
    exact .bind (.bind lock_page_tidy fun _ => .bind (readBlocks_tidy _ _ _ _ _) fun r => leaves_tidy _ _) fun _ =>
      .ret fun _ h => h
  | writeBlock rmiaddr databuff =>
    exact .bind (.bind lock_page_tidy fun _ => .bind (writeBlocks_tidy _ _ _) fun r => leaves_tidy _ _) fun _ =>
      .ret fun _ h => h
  | reset => exact .bind rmiSmbReset_tidy fun _ => .ret fun _ h => h
  | resume => exact .bind rmiSmbReset_tidy fun _ => tidy_op (fun _ => trivial) fun _ _ _ h => h

/-! ## Every run -/

/-- The stages of the threads, tied to the driver's table. -/
def stages (volatile prompt : Bool) : Custody (machine volatile prompt) staging where
  known _ := True
  inv := Turns
  tie t l s := Stands t s l
  idle := .away
  starts _ l := l = .away
  during _ _ := True
  rest l := l = .away
  starts_during _ _ _ := trivial
  moves_during _ _ _ _ _ _ _ := trivial
  event_keeps e s s' _ hs hreact := by
    have hapart : Apart s s' := by
      cases e with
      | registers regs =>
        obtain ⟨_, hs'⟩ := Option.ite_none_right_eq_some.mp hreact
        cases hs'
        exact ⟨rfl, rfl, rfl, rfl⟩
      | ps2Reset regs =>
        obtain ⟨_, hs'⟩ := Option.ite_none_right_eq_some.mp hreact
        cases hs'
        exact ⟨rfl, rfl, rfl, rfl⟩
      | _ =>
        cases hreact
        exact ⟨rfl, rfl, rfl, rfl⟩
    exact ⟨hapart.turns hs, fun _ _ h => hapart.stands h⟩
  enter_keeps c t s s' _ hs ht henter := by
    cases henter
    exact ⟨hs, ⟨_, rfl, ht⟩, fun _ _ _ h => h⟩
  step_keeps c t l o s r s' _ hs ht _ hallow _ hexec := exec_turns hs ht hallow hexec

/-- The slots take turns in every run. -/
theorem turns_reachable (h : p.Reachable (machine volatile prompt) Fresh) : Turns p.shared := by
  refine ((stages volatile prompt).covers_reachable (fun _ _ => trivial) (fun s hs => ⟨⟨fun _ => ?_, ?_⟩, fun t => ?_⟩)
    (fun c l hl => body_tidy c l hl) h).inv
  · rw [Transport.Ordered, hs.noted]
    exact rotated_nil
  · rw [hs.noted]
    exact spaced_nil
  · change s.mappingtableMutex ≠ some t
    rw [hs.mappingtableMutex]
    nofun

/-- An entry is not put into the table again before all eight slots have been used for others; so while
no entry is refused, blocks of at most eight kinds are entered once each. -/
theorem entries_spaced (h : p.Reachable (machine volatile prompt) Fresh) :
    (∀ j k e, j < k → k ≤ j + rmiSmb2MapSize → p.shared.noted[j]? = some e → e ≠ .zero →
      p.shared.noted[k]? ≠ some e) ∧
    ∀ W : Finset MappingTableEntry, (∀ e ∈ p.shared.noted, e ≠ .zero ∧ e ∈ W) → W.card ≤ rmiSmb2MapSize →
      p.shared.noted.Nodup := by
  have hspaced := (turns_reachable h).spaced
  exact ⟨hspaced, fun W hW hcard => hspaced.nodup (fun e he => (hW e he).1) (fun e he => (hW e he).2) hcard⟩

/-- Two entries have been noted since the table was cleared, and they differ. -/
theorem entries_spaced_forgotten : ∃ p : Pool Transport Op Op.Ans Call,
    p.shared.noted = [.made 0x3f 2 true, .made 0x1f 32 true] ∧ p.shared.noted.Nodup := by
  obtain ⟨p, hreach, hstate⟩ := exists_run false false forgotten
    (fun p => p.shared.noted = [.made 0x3f 2 true, .made 0x1f 32 true]) (by decide +kernel)
  have hnoted := of_decide_eq_true hstate
  refine ⟨p, hnoted, (entries_spaced hreach).2 {.made 0x3f 2 true, .made 0x1f 32 true} (fun e he => ?_) (by decide)⟩
  rw [hnoted] at he
  simp only [List.mem_cons, List.not_mem_nil, or_false] at he
  rcases he with rfl | rfl
  · exact ⟨by decide, by simp⟩
  · exact ⟨by decide, by simp⟩

end HostNotify.Rmi
